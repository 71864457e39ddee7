import Sphinx.Equiv.Reorganize

/-!
# Agreement on the best chain

The database, the `pnext` pointers and the globals `pindexBest`, `hashBestChain` and `nBestHeight` each
say what the best chain is.  `ChainTip` says that the first two agree on a block; it survives every
failure of `setBestChainInner`, `reorganize` and `connectFurther`, which move it only when they have
committed.  The globals are set by `newBestBlock` to the block `SetBestChain` was called for, whether or
not the postponed blocks could all be connected.

* `addStep_agree`: where no postponed block fails to connect, all three agree after the step;
* `indexRun_agree`: they agree after every run of such steps;
* `indexRun_disagrees`: a run in which a postponed block fails and they do not.
-/

namespace Sphinx

open ParentTree Relation
open Function (update update_of_ne update_self)

variable {env : Env} {ctx : Uint256 → Ctx} {genesis tip : Uint256} {node node' : Node}
variable {block : CBlock} {pindexNew : CBlockIndex}

/-- The database and the `pnext` pointers agree that `tip` is the best block. -/
structure ChainTip (genesis : Uint256) (node : Node) (tip : Uint256) : Prop where
  tree : IndexTree node.mapBlockIndex genesis
  mem : tip ∈ indexed node.mapBlockIndex
  batch : node.txdb.activeBatch = none
  stored : node.txdb.readHashBestChain = some tip
  follows : Follows (parentOf node.mapBlockIndex) (nextOf node.mapBlockIndex) tip

theorem ChainTip.congr (h : ChainTip genesis node tip)
    (hmap : node'.mapBlockIndex = node.mapBlockIndex) (htxdb : node'.txdb = node.txdb) :
    ChainTip genesis node' tip := by
  refine ⟨?_, ?_, ?_, ?_, ?_⟩
  · rw [hmap]; exact h.tree
  · rw [hmap]; exact h.mem
  · rw [htxdb]; exact h.batch
  · rw [htxdb]; exact h.stored
  · rw [hmap]; exact h.follows

/-- `pindexGenesisBlock`, `pindexBest`, `hashBestChain`, `nBestHeight` and `nBestChainTrust`. -/
def Node.globals (node : Node) : Option Uint256 × Option Uint256 × Uint256 × Int × Nat :=
  (node.pindexGenesisBlock, node.pindexBest, node.hashBestChain, node.nBestHeight,
    node.nBestChainTrust)

/-- The block index keeps its tree and the globals are left alone. -/
def Kept (node node' : Node) : Prop :=
  SameTree node'.mapBlockIndex node.mapBlockIndex ∧ node'.globals = node.globals

theorem Kept.refl (node : Node) : Kept node node := ⟨Entrywise.refl SameCore.refl _, rfl⟩

theorem Kept.trans {a b c : Node} (hab : Kept a b) (hbc : Kept b c) : Kept a c :=
  ⟨Entrywise.trans SameCore.trans hbc.1 hab.1, hbc.2.trans hab.2⟩

theorem Staged.kept (h : Staged node node') : Kept node node' := by
  refine ⟨h.sameTree, ?_⟩
  rw [h.rest]
  rfl

theorem Staged.nextOf_eq (h : Staged node node') :
    nextOf node'.mapBlockIndex = nextOf node.mapBlockIndex := by
  funext k
  cases hk : node.mapBlockIndex k with
  | none => rw [nextOf, nextOf, hk, (h.entries.none_iff k).mpr hk]
  | some e =>
    obtain ⟨e', he', hsame⟩ := h.entries.exists_left hk
    rw [Sphinx.nextOf_eq hk, Sphinx.nextOf_eq he', hsame]

/-! ### The database -/

theorem readHashBestChain_commit (txdb : CTxDB) (hash : Uint256) :
    (txdb.writeHashBestChain hash).txnCommit.readHashBestChain = some hash := by
  simp [CTxDB.readHashBestChain, CTxDB.read_eq_view, CTxDB.writeHashBestChain, CTxDB.view_write]

/-- `InvalidChainFound` writes nothing that the best chain depends on. -/
theorem invalidChainFound_eq (node : Node) (pindexNew : CBlockIndex) : ∃ trust pdb,
    invalidChainFound node pindexNew = { node with
      nBestInvalidTrust := trust, txdb := { node.txdb with pdb := pdb } } ∧
    ∀ key, key ≠ .bnBestInvalidTrust → pdb key = node.txdb.pdb key := by
  unfold invalidChainFound
  split
  · exact ⟨_, _, rfl, fun key hkey => update_of_ne hkey _ _⟩
  · exact ⟨node.nBestInvalidTrust, node.txdb.pdb, rfl, fun _ _ => rfl⟩

/-- A failure after staged changes: the batch is aborted and `InvalidChainFound` is called. -/
def failed (node : Node) (pindexNew : CBlockIndex) : Node :=
  invalidChainFound { node with txdb := node.txdb.txnAbort } pindexNew

/-- **After a failure the best chain is what it was.** -/
theorem ChainTip.failed (h : ChainTip genesis node tip)
    (hstaged : Staged node.begun node') (pindexNew : CBlockIndex) :
    ChainTip genesis (failed node' pindexNew) tip ∧ Kept node (failed node' pindexNew) := by
  obtain ⟨trust, pdb, heq, hpdb⟩ :=
    invalidChainFound_eq { node' with txdb := node'.txdb.txnAbort } pindexNew
  have hkept : Kept node node' := hstaged.kept
  have hpdb' : pdb .hashBestChain = node.txdb.pdb .hashBestChain := by
    rw [hpdb _ (by simp), ← hstaged.txnAbort_eq h.batch]
  rw [Sphinx.failed, heq]
  refine ⟨⟨h.tree.congr hkept.1, hkept.1.mem_indexed h.mem, rfl, ?_, ?_⟩, hkept⟩
  · have hstored := h.stored
    simp only [CTxDB.readHashBestChain, CTxDB.read, h.batch, CTxDB.txnAbort] at hstored ⊢
    rw [hpdb']
    exact hstored
  · have hfollows := h.follows
    rw [← hkept.1.parentOf_eq, ← hstaged.nextOf_eq] at hfollows
    exact hfollows

/-! ### Attaching a block -/

theorem setBestChainInner_ok (h : ChainTip genesis node tip)
    (hentry : node.mapBlockIndex pindexNew.hashBlock = some pindexNew)
    (hparent : parentOf node.mapBlockIndex pindexNew.hashBlock = some tip)
    (hhash : env.getBlockHash block = pindexNew.hashBlock)
    (hok : setBestChainInner env ctx node.begun block pindexNew = .ok node') :
    ChainTip genesis node' pindexNew.hashBlock ∧ Kept node node' := by
  have hstaged := staged_connectBlock env (ctx pindexNew.hashBlock)
    node.begun block hentry
  unfold setBestChainInner at hok
  split at hok
  · cases hok
  · next node1 hconn =>
    rw [hconn, nodeOf] at hstaged
    obtain rfl := Except.ok.inj hok
    have hkept : Kept node node1 := hstaged.kept
    have ht1 := h.tree.congr hkept.1
    have hsame := sameTree_setPrevNext node1.mapBlockIndex pindexNew.hashBlock
      (some pindexNew.hashBlock)
    have hp1 : parentOf node1.mapBlockIndex pindexNew.hashBlock = some tip := by
      rw [hkept.1.parentOf_eq]
      exact hparent
    have hmem1 := hkept.1.mem_indexed (mem_indexed hentry)
    have hfollows := h.follows
    rw [← hkept.1.parentOf_eq, ← hstaged.nextOf_eq] at hfollows
    have hfollows' := hfollows.extend ht1.graded hmem1 hp1
    rw [← nextOf_setPrevNext hp1 (hkept.1.mem_indexed h.mem), ← hsame.parentOf_eq] at hfollows'
    refine ⟨⟨ht1.congr hsame, hsame.mem_indexed hmem1, rfl, ?_, hfollows'⟩,
      Entrywise.trans SameCore.trans hsame hkept.1, hkept.2⟩
    rw [hhash]
    exact readHashBestChain_commit _ _

theorem setBestChainInner_error {e : Reject × Node} (h : ChainTip genesis node tip)
    (hentry : node.mapBlockIndex pindexNew.hashBlock = some pindexNew)
    (herror : setBestChainInner env ctx node.begun block pindexNew = .error e) :
    ChainTip genesis e.2 tip ∧ Kept node e.2 := by
  have hstaged := staged_connectBlock env (ctx pindexNew.hashBlock)
    node.begun block hentry
  unfold setBestChainInner at herror
  split at herror
  · next r node1 hconn =>
    rw [hconn, nodeOf] at hstaged
    rw [← Except.error.inj herror]
    exact h.failed hstaged pindexNew
  · cases herror

/-! ### Switching branches -/

/-- Resurrecting transactions changes the pool only. -/
theorem resurrect_eq (env : Env) (ctx : Uint256 → Ctx) (vResurrect : List CTransaction) :
    ∀ node : Node, ∃ mempool walletSyncs,
    vResurrect.foldl (resurrectTx env ctx) node
      = { node with mempool := mempool, walletSyncs := walletSyncs } := by
  induction vResurrect with
  | nil => exact fun node => ⟨node.mempool, node.walletSyncs, rfl⟩
  | cons tx rest ih =>
    intro node
    have hone : ∃ mempool walletSyncs, resurrectTx env ctx node tx
        = { node with mempool := mempool, walletSyncs := walletSyncs } := by
      unfold resurrectTx acceptToMemoryPool
      split
      · exact ⟨node.mempool, node.walletSyncs, rfl⟩
      · next node' hok =>
        split at hok
        · cases hok
        · simp only [exceptBind_ok] at hok
          obtain ⟨-, -, -, -, -, -, -, -, -, -, -, -, -, -, hok⟩ := hok
          obtain rfl := Except.ok.inj hok
          exact ⟨_, _, rfl⟩
    obtain ⟨mempool, walletSyncs, heq⟩ := hone
    obtain ⟨mempool', walletSyncs', heq'⟩ := ih (resurrectTx env ctx node tx)
    refine ⟨mempool', walletSyncs', ?_⟩
    rw [List.foldl_cons, heq', heq]

/-- The changes in memory after the commit: `pnext` moves from the one branch to the other. -/
theorem finishReorganize_eq (env : Env) (ctx : Uint256 → Ctx) (node : Node) (vDisconnect vConnect : List Uint256)
    (vResurrect vDelete : List CTransaction) : ∃ mempool walletSyncs,
    finishReorganize env ctx node vDisconnect vConnect vResurrect vDelete = { node with
      mapBlockIndex := vConnect.foldl (fun m h => setPrevNext m h (some h))
        (vDisconnect.foldl (fun m h => setPrevNext m h none) node.mapBlockIndex)
      mempool := mempool, walletSyncs := walletSyncs } := by
  obtain ⟨mempool, walletSyncs, heq⟩ := resurrect_eq env ctx vResurrect { node with
    mapBlockIndex := vConnect.foldl (fun m h => setPrevNext m h (some h))
      (vDisconnect.foldl (fun m h => setPrevNext m h none) node.mapBlockIndex) }
  simp only [finishReorganize, heq]
  exact ⟨_, _, rfl⟩

section

variable (h : ChainTip genesis node tip) (hbest : node.pindexBest = some tip)
  (hentry : node.mapBlockIndex pindexNew.hashBlock = some pindexNew)

include h hbest hentry

theorem ChainTip.findBranches :
    ∃ pfork vDisconnect vConnect,
      IsPath (parentOf node.mapBlockIndex) tip vDisconnect pfork ∧
      IsPath (parentOf node.mapBlockIndex) pindexNew.hashBlock vConnect.reverse pfork ∧
      reorganize env ctx node.begun pindexNew
        = (switchBranches env ctx node.begun vDisconnect vConnect).map
          fun r => finishReorganize env ctx { r.1 with
            txdb := (r.1.txdb.writeHashBestChain pindexNew.hashBlock).txnCommit }
            vDisconnect vConnect r.2.1 r.2.2 := by
  obtain ⟨e, he⟩ := exists_of_mem_indexed h.mem
  obtain rfl := h.tree.hash he
  obtain ⟨pfork, vDisconnect, vConnect, hbranches, -, hpath, hpath'⟩ :=
    findBranches_spec h.tree he hentry
  exact ⟨pfork, vDisconnect, vConnect, hpath, hpath',
    reorganize_eq env ctx node.begun hbest he hbranches⟩

theorem reorganize_ok
    (hok : reorganize env ctx node.begun pindexNew = .ok node') :
    ChainTip genesis node' pindexNew.hashBlock ∧ Kept node node' := by
  obtain ⟨pfork, vDisconnect, vConnect, hpath, hpath', heq⟩ := h.findBranches hbest hentry
  rw [heq] at hok
  cases hswitch : switchBranches env ctx node.begun vDisconnect
    vConnect with
  | error e => rw [hswitch] at hok; cases hok
  | ok result =>
    obtain ⟨node1, vResurrect, vDelete⟩ := result
    have hstaged := (staged_switchBranches ctx node.begun vDisconnect
      vConnect h.tree.hash).2 node1 vResurrect vDelete hswitch
    have hkept : Kept node node1 := hstaged.kept
    rw [hswitch] at hok
    obtain ⟨mempool, walletSyncs, hfinish⟩ := finishReorganize_eq env ctx
      { node1 with txdb := (node1.txdb.writeHashBestChain pindexNew.hashBlock).txnCommit }
      vDisconnect vConnect vResurrect vDelete
    obtain rfl := (Except.ok.inj hok).symm.trans hfinish
    have ht1 := h.tree.congr hkept.1
    -- `pnext` goes down the old branch and up the new one
    have hfollows := h.follows
    rw [← hkept.1.parentOf_eq] at hfollows hpath hpath'
    rw [← hstaged.nextOf_eq] at hfollows
    have hfork := follows_unlink ht1 (hkept.1.mem_indexed h.mem) hpath hfollows
    have htree := sameTree_foldl_setPrevNext (fun _ => none) vDisconnect node1.mapBlockIndex
    rw [← htree.parentOf_eq] at hfork hpath'
    have hmem := htree.mem_indexed (hkept.1.mem_indexed (mem_indexed hentry))
    have hnew := follows_link (ht1.congr htree) hmem hpath' hfork
    have htree' := sameTree_foldl_setPrevNext some vConnect
      (vDisconnect.foldl (fun m h => setPrevNext m h none) node1.mapBlockIndex)
    rw [← htree'.parentOf_eq] at hnew
    refine ⟨⟨(ht1.congr htree).congr htree', htree'.mem_indexed hmem, rfl,
      readHashBestChain_commit _ _, hnew⟩, ?_, hkept.2⟩
    exact Entrywise.trans SameCore.trans htree' (Entrywise.trans SameCore.trans htree hkept.1)

theorem reorganize_error {e : Reject × Node}
    (herror : reorganize env ctx node.begun pindexNew = .error e) :
    Staged node.begun e.2 := by
  obtain ⟨pfork, vDisconnect, vConnect, -, -, heq⟩ := h.findBranches hbest hentry
  rw [heq] at herror
  cases hswitch : switchBranches env ctx node.begun vDisconnect
    vConnect with
  | ok result => rw [hswitch] at herror; cases herror
  | error e' =>
    rw [hswitch] at herror
    obtain rfl := Except.error.inj herror
    exact (staged_switchBranches ctx node.begun vDisconnect
      vConnect h.tree.hash).1 _ hswitch

end

/-! ### Postponed blocks -/

/-- The blocks that are postponed are the path from the new block to `pindexIntermediate`, where the
loop stops because of the trust. -/
theorem postpone_spec {m : BlockMap} (ht : IndexTree m genesis) (nBestTrust : Nat) :
    ∀ fuel pindex vpindexSecondary, m pindex.hashBlock = some pindex → pindex.nHeight < fuel →
      ∃ pindexIntermediate l,
        postpone m nBestTrust fuel pindex vpindexSecondary
          = (pindexIntermediate, vpindexSecondary ++ l) ∧
        m pindexIntermediate.hashBlock = some pindexIntermediate ∧
        IsPath (parentOf m) pindex.hashBlock l pindexIntermediate.hashBlock ∧
        ∀ pprev, pindexIntermediate.pprev.bind m = some pprev → pprev.nChainTrust ≤ nBestTrust := by
  intro fuel
  induction fuel with
  | zero => intro pindex _ _ hlt; omega
  | succ fuel ih =>
    intro pindex vpindexSecondary hentry hlt
    rw [postpone]
    cases hprev : pindex.pprev.bind m with
    | none =>
      exact ⟨pindex, [], by simp, hentry, .nil _, fun pprev hp => by rw [hprev] at hp; cases hp⟩
    | some pprev =>
      by_cases htrust : nBestTrust < pprev.nChainTrust
      -- the block before is good enough, so this one is postponed
      · obtain ⟨prev, hp, hm⟩ := Option.bind_eq_some_iff.mp hprev
        obtain rfl := ht.hash hm
        have hparent : parentOf m pindex.hashBlock = some pprev.hashBlock := by
          rw [parentOf_eq hentry, hp]
        have hheight := ht.graded.height_eq (mem_indexed hentry) hparent
        rw [heightOf_eq hentry, heightOf_eq hm] at hheight
        obtain ⟨pindexIntermediate, l, heq, hmem, hpath, hstop⟩ :=
          ih pprev (vpindexSecondary ++ [pindex.hashBlock]) hm (by omega)
        refine ⟨pindexIntermediate, pindex.hashBlock :: l, ?_, hmem, .cons hparent hpath, hstop⟩
        simp only [if_pos htrust, heq, List.append_assoc, List.singleton_append]
      · refine ⟨pindex, [], by simp [htrust], hentry, .nil _, fun pprev' hp => ?_⟩
        obtain rfl := Option.some.inj (hprev.symm.trans hp)
        omega

/-- Every postponed block is connected when its turn comes. -/
def connectsFurther (env : Env) (ctx : Uint256 → Ctx) : List Uint256 → Node → Bool
  | [], _ => true
  | pindex :: rest, node =>
    match readIndexed env node pindex "SetBestChain() : ReadFromDisk failed" with
    | .error _ => true
    | .ok (entry, block) =>
      match setBestChainInner env ctx node.begun block entry with
      | .error _ => false
      | .ok node => connectsFurther env ctx rest node

/-- Every block but the genesis block can be read from disk. -/
def Readable (env : Env) (m : BlockMap) (genesis : Uint256) : Prop :=
  ∀ h e, m h = some e → h ≠ genesis → ∃ block, env.readBlockFromDisk e = .ok block

theorem readBlockFromDisk_congr {e e' : CBlockIndex} (h : SameCore e' e) :
    env.readBlockFromDisk e' = env.readBlockFromDisk e := by
  unfold Env.readBlockFromDisk
  rw [h.nFile, h.nBlockPos, h.hashBlock]

theorem Readable.congr {m m' : BlockMap} (h : Readable env m genesis) (hsame : SameTree m' m) :
    Readable env m' genesis := by
  intro k e' he' hne
  obtain ⟨e, he, hcore⟩ := hsame.exists_right he'
  rw [readBlockFromDisk_congr hcore]
  exact h k e he hne

/-- The next block on the way up to an indexed block can be read. -/
theorem Readable.readIndexed_next {new : Uint256} {l : List Uint256} {h : Uint256}
    (hread : Readable env node.mapBlockIndex genesis) (ht : IndexTree node.mapBlockIndex genesis)
    (hmem : new ∈ indexed node.mapBlockIndex)
    (hpath : IsPath (parentOf node.mapBlockIndex) new (h :: l).reverse tip) (text : String) :
    ∃ entry block, entry.hashBlock = h ∧ node.mapBlockIndex h = some entry ∧
      parentOf node.mapBlockIndex h = some tip ∧
      IsPath (parentOf node.mapBlockIndex) new l.reverse h ∧
      env.readBlockFromDisk entry = .ok block ∧ readIndexed env node h text = .ok (entry, block) := by
  rw [List.reverse_cons, isPath_append_singleton] at hpath
  obtain ⟨hpath, hparent⟩ := hpath
  obtain ⟨entry, hentry⟩ := exists_of_mem_indexed (ht.graded.mem_of_ancestor hmem hpath.ancestor)
  obtain ⟨block, hblock⟩ := hread h entry hentry (ht.ne_genesis hparent)
  refine ⟨entry, block, ht.hash hentry, hentry, hparent, hpath, hblock, ?_⟩
  simp only [readIndexed, hentry, hblock]

/-- The database and `pnext` agree after the postponed blocks, on the new block if all of them could
be connected. -/
theorem connectFurther_tip {new : Uint256} :
    ∀ (l : List Uint256) {node : Node} {tip : Uint256}, ChainTip genesis node tip →
      Readable env node.mapBlockIndex genesis → new ∈ indexed node.mapBlockIndex →
      IsPath (parentOf node.mapBlockIndex) new l.reverse tip →
      Kept node (connectFurther env ctx l node) ∧
        (connectsFurther env ctx l node = true →
          ChainTip genesis (connectFurther env ctx l node) new) := by
  intro l
  induction l with
  | nil =>
    intro node tip h _ _ hpath
    cases hpath
    exact ⟨Kept.refl node, fun _ => h⟩
  | cons pindex rest ih =>
    intro node tip h hread hmem hpath
    obtain ⟨entry, block, rfl, hentry, hparent, hpath, hblock, hreadIndexed⟩ :=
      hread.readIndexed_next h.tree hmem hpath "SetBestChain() : ReadFromDisk failed"
    simp only [connectFurther, connectsFurther, hreadIndexed]
    cases hinner : setBestChainInner env ctx node.begun block entry with
    | error e =>
      exact ⟨(setBestChainInner_error h hentry hinner).2, fun hfalse => by cases hfalse⟩
    | ok node1 =>
      obtain ⟨htip, hkept⟩ := setBestChainInner_ok h hentry hparent
        (readBlockFromDisk_ok hblock).2 hinner
      rw [← hkept.1.parentOf_eq] at hpath
      obtain ⟨hkept', htip'⟩ := ih htip (hread.congr hkept.1) (hkept.1.mem_indexed hmem) hpath
      exact ⟨hkept.trans hkept', htip'⟩

/-! ### `AddToBlockIndex` -/

/-- The globals, the database and `pnext` agree that `tip` is the best block. -/
structure BestInv (env : Env) (genesis : Uint256) (node : Node) (tip : Uint256) : Prop where
  chainTip : ChainTip genesis node tip
  readable : Readable env node.mapBlockIndex genesis
  started : node.pindexGenesisBlock ≠ none
  best : node.pindexBest = some tip
  hash : node.hashBestChain = tip
  height : node.nBestHeight = heightOf node.mapBlockIndex tip

theorem BestInv.of_kept (h : BestInv env genesis node tip) (htip : ChainTip genesis node' tip)
    (hkept : Kept node node') : BestInv env genesis node' tip := by
  have hglobals := hkept.2
  simp only [Node.globals, Prod.mk.injEq] at hglobals
  obtain ⟨hgenesis, hbest, hhash, hheight, -⟩ := hglobals
  exact ⟨htip, h.readable.congr hkept.1, by rw [hgenesis]; exact h.started, hbest.trans h.best,
    hhash.trans h.hash, by rw [hheight, hkept.1.heightOf_eq]; exact h.height⟩

/-- A new tip, once the globals have been set to it. -/
theorem BestInv.newBestBlock {hash : Uint256} (h : BestInv env genesis node tip)
    (hentry : node.mapBlockIndex pindexNew.hashBlock = some pindexNew)
    (hhash : hash = pindexNew.hashBlock) (htip : ChainTip genesis node' pindexNew.hashBlock)
    (hkept : Kept node node') :
    BestInv env genesis (newBestBlock node' hash pindexNew) pindexNew.hashBlock := by
  have hgenesis : node'.pindexGenesisBlock = node.pindexGenesisBlock :=
    congrArg Prod.fst hkept.2
  refine ⟨htip.congr rfl rfl, h.readable.congr hkept.1, ?_, rfl, hhash, ?_⟩
  · show node'.pindexGenesisBlock ≠ none
    rw [hgenesis]
    exact h.started
  · show (pindexNew.nHeight : Int) = heightOf node'.mapBlockIndex pindexNew.hashBlock
    rw [hkept.1.heightOf_eq, heightOf_eq hentry]

/-- A call of `AddToBlockIndex`. -/
structure Arrival where
  ctx : Uint256 → Ctx
  block : CBlock
  nFile : Nat
  nBlockPos : Nat
  hashProof : Uint256

/-- The state after the call, whether it returns true or false. -/
def Arrival.add (env : Env) (node : Node) (a : Arrival) : Node :=
  nodeOf (addToBlockIndex env a.ctx node a.block a.nFile a.nBlockPos a.hashProof)

/-- The block comes after its parent and can be read back from disk. -/
structure Arrival.Valid (env : Env) (node : Node) (a : Arrival) : Prop where
  parent : (node.mapBlockIndex a.block.hashPrevBlock).isSome = true
  readable : env.readBlockFromDisk
    (CBlockIndex.ofBlock (env.getBlockHash a.block) a.nFile a.nBlockPos a.block) = .ok a.block

/-- **What a call does**: nothing but to count itself, or it adds the entry of the block, and `SetBestChain`
is called if the chain of this block is the better one. -/
theorem Arrival.add_cases {a : Arrival} (hvalid : a.Valid env node) :
    a.add env node = node ∧ (node.mapBlockIndex (env.getBlockHash a.block)).isSome = true ∨
    a.add env node = { node with nBlockSequenceId := node.nBlockSequenceId + 1 } ∧
      (∃ r, newBlockIndex env node a.block a.nFile a.nBlockPos a.hashProof = .error r) ∨
    ∃ pindexNew, newBlockIndex env node a.block a.nFile a.nBlockPos a.hashProof = .ok pindexNew ∧
      node.mapBlockIndex pindexNew.hashBlock = none ∧ pindexNew.hashBlock = env.getBlockHash a.block ∧
      pindexNew.pprev = some a.block.hashPrevBlock ∧
      (insertBlockIndex node pindexNew).mapBlockIndex pindexNew.hashBlock = some pindexNew ∧
      a.add env node = if node.nBestChainTrust < pindexNew.nChainTrust then
          nodeOf (setBestChain env a.ctx (insertBlockIndex node pindexNew) a.block pindexNew)
        else insertBlockIndex node pindexNew := by
  unfold Arrival.add addToBlockIndex
  by_cases hexists : (node.mapBlockIndex (env.getBlockHash a.block)).isSome = true
  · rw [if_pos hexists]
    exact .inl ⟨rfl, hexists⟩
  rw [if_neg hexists]
  right
  cases hnew : newBlockIndex env node a.block a.nFile a.nBlockPos a.hashProof with
  | error r => exact .inl ⟨rfl, r, rfl⟩
  | ok pindexNew =>
    obtain ⟨prev, hprev⟩ := Option.isSome_iff_exists.mp hvalid.parent
    obtain ⟨hhash, hpprev, -⟩ := newBlockIndex_ok hprev hnew
    refine .inr ⟨pindexNew, rfl, ?_, hhash, hpprev, update_self _ _ _, ?_⟩
    · rw [hhash]
      exact Option.not_isSome_iff_eq_none.mp hexists
    · exact apply_ite nodeOf _ _ _

/-- When `SetBestChain` switches branches for `pindexNew`, every block it postpones is connected. -/
def postponedConnect (env : Env) (ctx : Uint256 → Ctx) (node : Node) (pindexNew : CBlockIndex) :
    Bool :=
  match node.pindexBest.bind node.mapBlockIndex with
  | none => true
  | some pindexBest =>
    let (pindexIntermediate, vpindexSecondary) := postpone node.mapBlockIndex pindexBest.nChainTrust
      (pindexNew.nHeight + 1) pindexNew []
    match reorganize env ctx node.begun pindexIntermediate with
    | .error _ => true
    | .ok node => connectsFurther env ctx vpindexSecondary.reverse node

/-- No block that the call postpones fails to connect. -/
def Arrival.postponedConnect (env : Env) (node : Node) (a : Arrival) : Bool :=
  match newBlockIndex env node a.block a.nFile a.nBlockPos a.hashProof with
  | .error _ => true
  | .ok pindexNew =>
    if (node.mapBlockIndex pindexNew.hashBlock).isSome ∨
      pindexNew.nChainTrust ≤ node.nBestChainTrust ∨ a.block.hashPrevBlock = node.hashBestChain
    then true
    else Sphinx.postponedConnect env a.ctx (insertBlockIndex node pindexNew) pindexNew

theorem BestInv.insert {a : Arrival} (h : BestInv env genesis node tip) (hvalid : a.Valid env node)
    (hnew : newBlockIndex env node a.block a.nFile a.nBlockPos a.hashProof = .ok pindexNew)
    (hfresh : node.mapBlockIndex pindexNew.hashBlock = none) :
    BestInv env genesis (insertBlockIndex node pindexNew) tip := by
  obtain ⟨prev, hprev⟩ := Option.isSome_iff_exists.mp hvalid.parent
  obtain ⟨hhash, hpprev, hheight, hfile, hpos, hpnext, -⟩ := newBlockIndex_ok hprev hnew
  have hprevHash := h.chainTip.tree.hash hprev
  have hmap : (insertBlockIndex node pindexNew).mapBlockIndex
      = update node.mapBlockIndex pindexNew.hashBlock (some pindexNew) := rfl
  have hne : ∀ {k e}, node.mapBlockIndex k = some e → k ≠ pindexNew.hashBlock := by
    rintro k e he rfl
    rw [hfresh] at he
    cases he
  obtain ⟨etip, hetip⟩ := exists_of_mem_indexed h.chainTip.mem
  have hetip' : (insertBlockIndex node pindexNew).mapBlockIndex tip = some etip := by
    rw [hmap, update_of_ne (hne hetip), hetip]
  -- the tree, the stored tip, the pointers and the block files, each with the new entry
  refine ⟨⟨?_, mem_indexed hetip', rfl, ?_, ?_⟩, ?_, h.started, h.best, h.hash, ?_⟩
  · exact h.chainTip.tree.insert hfresh (by rw [hpprev, hprevHash]) (by rw [hprevHash, hprev])
      hheight
  · have hstored := h.chainTip.stored
    simp only [insertBlockIndex, CTxDB.readHashBestChain, CTxDB.read_eq_view, CTxDB.view_txnCommit,
      CTxDB.writeBlockIndex, CTxDB.view_write, CTxDB.view_txnBegin] at hstored ⊢
    rw [update_of_ne (by simp)]
    rwa [CTxDB.view, h.chainTip.batch] at hstored
  · exact follows_insert h.chainTip.tree hfresh hpnext h.chainTip.mem h.chainTip.follows
  · intro k e he hgen
    by_cases hk : k = pindexNew.hashBlock
    · rw [hmap, hk, update_self] at he
      obtain rfl := Option.some.inj he
      refine ⟨a.block, ?_⟩
      have hread := hvalid.readable
      unfold Env.readBlockFromDisk at hread ⊢
      rw [hfile, hpos, hhash]
      exact hread
    · rw [hmap, update_of_ne hk] at he
      exact h.readable k e he hgen
  · show node.nBestHeight = _
    rw [heightOf_eq hetip', h.height, heightOf_eq hetip]

/-- The blocks that `SetBestChain` postpones, and the one below them. -/
theorem ChainTip.postpone (h : ChainTip genesis node tip) (hbest : node.pindexBest = some tip)
    (hentry : node.mapBlockIndex pindexNew.hashBlock = some pindexNew) : ∃ etip pindexIntermediate l,
      node.pindexBest.bind node.mapBlockIndex = some etip ∧
      Sphinx.postpone node.mapBlockIndex etip.nChainTrust (pindexNew.nHeight + 1) pindexNew [] =
        (pindexIntermediate, l) ∧
      node.mapBlockIndex pindexIntermediate.hashBlock = some pindexIntermediate ∧
      IsPath (parentOf node.mapBlockIndex) pindexNew.hashBlock l pindexIntermediate.hashBlock := by
  obtain ⟨etip, hetip⟩ := exists_of_mem_indexed h.mem
  obtain ⟨pindexIntermediate, l, hpostpone, hmid, hpath, -⟩ := postpone_spec h.tree
    etip.nChainTrust (pindexNew.nHeight + 1) pindexNew [] hentry (by omega)
  exact ⟨etip, pindexIntermediate, l, by rw [hbest, Option.bind_some, hetip], hpostpone, hmid, hpath⟩

/-- The branch of `SetBestChain` that switches branches. -/
theorem switchBestChain_inv (ctx : Uint256 → Ctx) (h : BestInv env genesis node tip)
    (hentry : node.mapBlockIndex pindexNew.hashBlock = some pindexNew) :
    (∀ e, switchBestChain env ctx node.begun pindexNew = .error e →
      BestInv env genesis e.2 tip) ∧
    ∀ node', switchBestChain env ctx node.begun pindexNew = .ok node' →
      postponedConnect env ctx node pindexNew = true →
      ChainTip genesis node' pindexNew.hashBlock ∧ Kept node node' := by
  obtain ⟨etip, pindexIntermediate, l, hbest, hpostpone, hmid, hpath⟩ := h.chainTip.postpone h.best hentry
  simp only [switchBestChain, postponedConnect, hbest, hpostpone]
  cases hreorganize : reorganize env ctx node.begun pindexIntermediate
    with
  | error e =>
    refine ⟨fun e' he => ?_, fun _ hok => nomatch hok⟩
    rw [← Except.error.inj he]
    have hstaged := reorganize_error h.chainTip h.best hmid hreorganize
    obtain ⟨htip, hkept⟩ := h.chainTip.failed hstaged pindexNew
    exact h.of_kept htip hkept
  | ok node1 =>
    refine ⟨fun e' he => (nomatch he), fun node' hok hconnects => ?_⟩
    obtain rfl := Except.ok.inj hok
    obtain ⟨htip, hkept⟩ := reorganize_ok h.chainTip h.best hmid hreorganize
    rw [← hkept.1.parentOf_eq, ← l.reverse_reverse] at hpath
    obtain ⟨hkept', htip'⟩ := connectFurther_tip l.reverse htip (h.readable.congr hkept.1)
      (hkept.1.mem_indexed (mem_indexed hentry)) hpath
    exact ⟨htip' hconnects, hkept.trans hkept'⟩

theorem setBestChain_inv (h : BestInv env genesis node tip)
    (hentry : node.mapBlockIndex pindexNew.hashBlock = some pindexNew)
    (hpprev : pindexNew.pprev = some block.hashPrevBlock)
    (hhash : env.getBlockHash block = pindexNew.hashBlock)
    (hpostponed : block.hashPrevBlock ≠ node.hashBestChain → postponedConnect env ctx node pindexNew = true) :
    ∃ tip', BestInv env genesis (nodeOf (setBestChain env ctx node block pindexNew)) tip' := by
  have hstarted : ¬ (node.pindexGenesisBlock = none ∧ env.getBlockHash block = env.hashGenesisBlock) :=
    fun hgen => h.started hgen.1
  simp only [setBestChain]
  rw [if_neg hstarted]
  by_cases hextends : block.hashPrevBlock = node.hashBestChain
  · -- the new block is a child of the tip
    rw [if_pos hextends]
    cases hinner : setBestChainInner env ctx node.begun block
      pindexNew with
    | error e =>
      obtain ⟨htip, hkept⟩ := setBestChainInner_error h.chainTip hentry hinner
      exact ⟨tip, h.of_kept htip hkept⟩
    | ok node' =>
      have hparent : parentOf node.mapBlockIndex pindexNew.hashBlock = some tip := by
        rw [parentOf_eq hentry, hpprev, hextends, h.hash]
      obtain ⟨htip, hkept⟩ := setBestChainInner_ok h.chainTip hentry hparent hhash hinner
      exact ⟨_, h.newBestBlock hentry hhash htip hkept⟩
  · rw [if_neg hextends]
    obtain ⟨herror, hok⟩ := switchBestChain_inv ctx h hentry
    cases hswitch : switchBestChain env ctx node.begun pindexNew with
    | error e => exact ⟨tip, herror e hswitch⟩
    | ok node' =>
      obtain ⟨htip, hkept⟩ := hok node' hswitch (hpostponed hextends)
      exact ⟨_, h.newBestBlock hentry hhash htip hkept⟩

/-- **One call of `AddToBlockIndex`** in which every postponed block is connected. -/
theorem addStep_agree {a : Arrival} (h : BestInv env genesis node tip) (hvalid : a.Valid env node)
    (hpostponed : a.postponedConnect env node = true) :
    ∃ tip', BestInv env genesis (a.add env node) tip' := by
  rcases Arrival.add_cases hvalid with ⟨hadd, -⟩ | ⟨hadd, -⟩
    | ⟨pindexNew, hnew, hfresh, hhash, hpprev, hentry, hadd⟩
  · rw [hadd]
    exact ⟨tip, h⟩
  · rw [hadd]
    exact ⟨tip, h.of_kept (h.chainTip.congr rfl rfl) (Kept.refl node)⟩
  · have hinsert := h.insert hvalid hnew hfresh
    rw [hadd]
    split_ifs with htrust
    · refine setBestChain_inv hinsert hentry hpprev hhash.symm fun hne => ?_
      have hne' : a.block.hashPrevBlock ≠ node.hashBestChain := hne
      simpa [Arrival.postponedConnect, hnew, hfresh, not_le.mpr htrust, hne'] using hpostponed
    · exact ⟨tip, hinsert⟩

/-! ### Runs -/

/-- A call of `AddToBlockIndex` for a block that comes after its parent and can be read back, and for
which `P` holds. -/
def IndexStep (env : Env) (P : Node → Arrival → Prop) (node node' : Node) : Prop :=
  ∃ a : Arrival, a.Valid env node ∧ P node a ∧ node' = a.add env node

/-- The state in which only the genesis block is known. -/
structure OnlyGenesis (genesis : Uint256) (node : Node) : Prop where
  index : ∃ e : CBlockIndex, e.hashBlock = genesis ∧ e.pprev = none ∧ e.pnext = none ∧
    e.nHeight = 0 ∧ node.mapBlockIndex = update (fun _ => none) genesis (some e)
  started : node.pindexGenesisBlock = some genesis
  best : node.pindexBest = some genesis
  hash : node.hashBestChain = genesis
  height : node.nBestHeight = 0
  batch : node.txdb.activeBatch = none
  stored : node.txdb.readHashBestChain = some genesis

/-- What the globals, the database and the index say about the best chain is the same. -/
def BestChainAgrees (node : Node) : Prop :=
  ∃ tip entry, node.mapBlockIndex tip = some entry ∧ node.pindexBest = some tip ∧
    node.hashBestChain = tip ∧ node.nBestHeight = entry.nHeight ∧ node.txdb.activeBatch = none ∧
    node.txdb.readHashBestChain = some tip ∧
    ∀ b pindex, node.mapBlockIndex b = some pindex →
      (isInMainChain node pindex = true ↔ Ancestor (parentOf node.mapBlockIndex) tip b) ∧
      ∀ n, pindex.pnext = some n ↔ parentOf node.mapBlockIndex n = some b ∧
        Ancestor (parentOf node.mapBlockIndex) tip n

theorem BestInv.agrees (h : BestInv env genesis node tip) : BestChainAgrees node := by
  obtain ⟨entry, hentry⟩ := exists_of_mem_indexed h.chainTip.mem
  refine ⟨tip, entry, hentry, h.best, h.hash, by rw [h.height, heightOf_eq hentry], h.chainTip.batch,
    h.chainTip.stored, fun b pindex hb => ⟨?_, fun n => ?_⟩⟩
  · have hiff := h.chainTip.follows.ancestor_iff b
    rw [nextOf_eq hb] at hiff
    rw [← hiff, isInMainChain, h.best, h.chainTip.tree.hash hb]
    simp [Option.ne_none_iff_isSome]
  · have hiff := h.chainTip.follows b n
    rw [nextOf_eq hb] at hiff
    exact hiff

theorem bestInv_onlyGenesis (h : OnlyGenesis genesis node) : BestInv env genesis node genesis := by
  obtain ⟨⟨e, hhash, hprev, hnext, hheight, hmap⟩, hstarted, hbest, hhashBest, hnBestHeight, hbatch,
    hstored⟩ := h
  have hgen : node.mapBlockIndex genesis = some e := by rw [hmap, update_self]
  refine ⟨⟨indexTree_single hhash hprev hheight hmap, mem_indexed hgen, hbatch, hstored, ?_⟩, ?_,
    by rw [hstarted]; simp, hbest, hhashBest, by rw [hnBestHeight, heightOf_eq hgen, hheight]; rfl⟩
  · -- no block has a parent, and none has a next one
    intro b n
    constructor
    · intro hn
      obtain ⟨e', he', hn⟩ := Option.bind_eq_some_iff.mp hn
      rw [(eq_of_single hmap he').2, hnext] at hn
      cases hn
    · rintro ⟨hp, -⟩
      obtain ⟨e', he', hp⟩ := Option.bind_eq_some_iff.mp hp
      rw [(eq_of_single hmap he').2, hprev] at hp
      cases hp
  · intro k e' he' hne
    exact absurd (eq_of_single hmap he').1 hne

/-- **Agreement on the best chain**, in every run in which each block that is postponed is connected
when its turn comes. -/
theorem indexRun_agree {start : Node} (hstart : OnlyGenesis genesis start)
    (hrun : ReflTransGen (IndexStep env fun node a => a.postponedConnect env node = true) start node) :
    BestChainAgrees node := by
  suffices hinv : ∃ tip, BestInv env genesis node tip by
    obtain ⟨tip, hinv⟩ := hinv
    exact hinv.agrees
  induction hrun with
  | refl => exact ⟨genesis, bestInv_onlyGenesis hstart⟩
  | tail _ hstep ih =>
    obtain ⟨tip, hinv⟩ := ih
    obtain ⟨a, hvalid, hpostponed, rfl⟩ := hstep
    exact addStep_agree hinv hvalid hpostponed

/-! ### What `SetBestChain` leaves alone

Whatever `SetBestChain` does, with or without an error, it adds and removes no entry and leaves alone
what an entry was created with.  The globals are set when it is done. -/

/-- The entries and the globals are left alone, and `nBestInvalidTrust` does not go down. -/
def Aside (node node' : Node) : Prop :=
  SameEntries node'.mapBlockIndex node.mapBlockIndex ∧ node'.globals = node.globals ∧
    node.nBestInvalidTrust ≤ node'.nBestInvalidTrust

theorem Aside.refl (node : Node) : Aside node node := ⟨SameEntries.refl _, rfl, le_rfl⟩

theorem Aside.trans {a b c : Node} (hab : Aside a b) (hbc : Aside b c) : Aside a c :=
  ⟨SameEntries.trans hbc.1 hab.1, hbc.2.1.trans hab.2.1, hab.2.2.trans hbc.2.2⟩

theorem Staged.aside (h : Staged node node') : Aside node node' :=
  ⟨h.sameEntries, h.kept.2, by rw [h.rest]⟩

theorem aside_invalidChainFound (node : Node) (pindexNew : CBlockIndex) :
    Aside node (invalidChainFound node pindexNew) ∧
      pindexNew.nChainTrust ≤ (invalidChainFound node pindexNew).nBestInvalidTrust := by
  unfold invalidChainFound
  split
  · next h => exact ⟨⟨SameEntries.refl _, rfl, h.le⟩, le_rfl⟩
  · next h => exact ⟨Aside.refl node, not_lt.mp h⟩

section

variable (env) (ctx)

theorem aside_setBestChainInner (node : Node) (block : CBlock)
    (hentry : node.mapBlockIndex pindexNew.hashBlock = some pindexNew) :
    Aside node (nodeOf (setBestChainInner env ctx node block pindexNew)) ∧
    ∀ e, setBestChainInner env ctx node block pindexNew = .error e →
      pindexNew.nChainTrust ≤ e.2.nBestInvalidTrust := by
  have haside := (staged_connectBlock env (ctx pindexNew.hashBlock) node block hentry).aside
  unfold setBestChainInner
  split
  · next r node1 hconn =>
    rw [hconn] at haside
    obtain ⟨hfound, htrust⟩ := aside_invalidChainFound { node1 with txdb := node1.txdb.txnAbort } pindexNew
    exact ⟨haside.trans hfound, fun e he => Except.error.inj he ▸ htrust⟩
  · next node1 hconn =>
    rw [hconn] at haside
    exact ⟨haside.trans ⟨sameEntries_setPrevNext _ _ _, rfl, le_rfl⟩, fun e he => (nomatch he)⟩

/-- A switch of branches sets no global. -/
theorem aside_reorganize {node : Node}
    (hkey : HashKeyed node.mapBlockIndex) (pindexNew : CBlockIndex) :
    Aside node (nodeOf (reorganize env ctx node pindexNew)) := by
  unfold reorganize
  split
  · exact Aside.refl node
  · split
    · exact Aside.refl node
    · next vDisconnect vConnect _ =>
      cases hswitch : switchBranches env ctx node vDisconnect vConnect with
      | error e => exact ((staged_switchBranches ctx node vDisconnect vConnect hkey).1 e hswitch).aside
      | ok result =>
        obtain ⟨node1, vResurrect, vDelete⟩ := result
        have hstaged := (staged_switchBranches ctx node vDisconnect vConnect hkey).2 node1 vResurrect
          vDelete hswitch
        obtain ⟨mempool, walletSyncs, hfinish⟩ := finishReorganize_eq env ctx
          { node1 with txdb := (node1.txdb.writeHashBestChain pindexNew.hashBlock).txnCommit }
          vDisconnect vConnect vResurrect vDelete
        show Aside node (finishReorganize _ _ _ _ _ _ _)
        rw [hfinish]
        exact hstaged.aside.trans ⟨SameEntries.trans (sameEntries_foldl_setPrevNext some vConnect _)
          (sameEntries_foldl_setPrevNext (fun _ => none) vDisconnect _), rfl, le_rfl⟩

theorem aside_connectFurther (hashes : List Uint256) :
    ∀ {node : Node}, HashKeyed node.mapBlockIndex → Aside node (connectFurther env ctx hashes node) := by
  induction hashes with
  | nil => exact fun _ => Aside.refl _
  | cons h rest ih =>
    intro node hkey
    unfold connectFurther
    split
    · exact Aside.refl node
    · next entry block hread =>
      obtain ⟨hentry, -⟩ := readIndexed_ok hread
      rw [← hkey hentry] at hentry
      obtain ⟨haside, -⟩ := aside_setBestChainInner env ctx node.begun block hentry
      split
      · next r node1 hset =>
        rw [hset] at haside
        exact haside
      · next node1 hset =>
        rw [hset] at haside
        exact haside.trans (ih (hkey.congr haside.1.sameTree))

theorem aside_switchBestChain (node : Node)
    (hkey : HashKeyed node.mapBlockIndex) (pindexNew : CBlockIndex) :
    Aside node (nodeOf (switchBestChain env ctx node pindexNew)) ∧
    ∀ e, switchBestChain env ctx node pindexNew = .error e →
      node.pindexBest.bind node.mapBlockIndex ≠ none → pindexNew.nChainTrust ≤ e.2.nBestInvalidTrust := by
  unfold switchBestChain
  split
  · next hnone => exact ⟨Aside.refl node, fun e _ hne => absurd hnone hne⟩
  · next pindexBest _ =>
    have haside := aside_reorganize env ctx hkey (postpone node.mapBlockIndex
      pindexBest.nChainTrust (pindexNew.nHeight + 1) pindexNew []).1
    simp only
    split
    · next r node1 hre =>
      rw [hre] at haside
      obtain ⟨hfound, htrust⟩ := aside_invalidChainFound { node1 with txdb := node1.txdb.txnAbort } pindexNew
      exact ⟨haside.trans hfound, fun e he _ => Except.error.inj he ▸ htrust⟩
    · next node1 hre =>
      rw [hre] at haside
      exact ⟨haside.trans (aside_connectFurther env ctx _ (hkey.congr haside.1.sameTree)),
        fun e he => (nomatch he)⟩

theorem sameEntries_setBestChain (node : Node) (block : CBlock)
    (pindexNew : CBlockIndex) (hkey : HashKeyed node.mapBlockIndex)
    (hentry : node.mapBlockIndex pindexNew.hashBlock = some pindexNew) :
    SameEntries (nodeOf (setBestChain env ctx node block pindexNew)).mapBlockIndex
      node.mapBlockIndex := by
  unfold setBestChain
  dsimp only
  split_ifs
  · exact SameEntries.refl _
  · have hsame := (aside_setBestChainInner env ctx node.begun block hentry).1.1
    cases hset : setBestChainInner env ctx node.begun block
      pindexNew with
    | error e =>
      rw [hset] at hsame
      exact hsame
    | ok node1 =>
      rw [hset] at hsame
      exact hsame
  · have hsame := (aside_switchBestChain env ctx node.begun hkey pindexNew).1.1
    cases hset : switchBestChain env ctx node.begun pindexNew with
    | error e =>
      rw [hset] at hsame
      exact hsame
    | ok node1 =>
      rw [hset] at hsame
      exact hsame

end

/-- `AddToBlockIndex` adds the entry of the block and no other. -/
theorem indexed_addToBlockIndex {env : Env} {ctx : Uint256 → Ctx} {node node' : Node}
    {nFile nBlockPos : Nat} {hashProof : Uint256} (hkey : HashKeyed node.mapBlockIndex)
    (hok : addToBlockIndex env ctx node block nFile nBlockPos hashProof = .ok node') :
    HashKeyed node'.mapBlockIndex ∧
    ∀ h, (node'.mapBlockIndex h).isSome ↔
      (node.mapBlockIndex h).isSome ∨ h = env.getBlockHash block := by
  unfold addToBlockIndex at hok
  split at hok
  · cases hok
  · split at hok
    · cases hok
    · next pindexNew hnew =>
      have hhash : pindexNew.hashBlock = env.getBlockHash block := by
        unfold newBlockIndex at hnew
        dsimp only at hnew
        split at hnew
        · cases hnew
        · rw [← Except.ok.inj hnew]
          rfl
      -- whether or not the block becomes the best one, its entry is there
      have hsame : SameTree node'.mapBlockIndex (insertBlockIndex node pindexNew).mapBlockIndex := by
        dsimp only at hok
        split at hok
        · have hset := sameEntries_setBestChain env ctx (insertBlockIndex node pindexNew) block pindexNew
            (hkey.insert pindexNew) (update_self _ _ _)
          rw [hok] at hset
          exact hset.sameTree
        · rw [← Except.ok.inj hok]
          exact Entrywise.refl SameCore.refl _
      refine ⟨HashKeyed.congr (hkey.insert pindexNew) hsame, fun h => ?_⟩
      have hiff : (node'.mapBlockIndex h).isSome ↔
          (update node.mapBlockIndex pindexNew.hashBlock (some pindexNew) h).isSome := by
        have hnone := hsame.none_iff h
        rw [Option.isSome_iff_ne_none, Option.isSome_iff_ne_none]
        exact not_congr hnone
      rw [hiff, ← hhash]
      by_cases heq : h = pindexNew.hashBlock
      · subst heq
        simp
      · simp [heq]

/-! ### Sample runs -/

def rewardTx (nTime : Nat) (opcode : UInt8) (nValue : CAmount) : CTransaction :=
  { nTime := nTime, vin := [⟨COutPoint.null, [opcode, 0], uintMax⟩], vout := [⟨nValue, [1], -10⟩] }

/-- A block with nothing but a coinbase. -/
def rewardBlock (hashPrevBlock : Uint256) (nTime : Nat) (tx : CTransaction) : CBlock :=
  { sampleBlock [tx] with hashPrevBlock := hashPrevBlock, nTime := nTime }

/-- The node that knows only the genesis block, with hash 105. -/
def genesisNode : Node :=
  { sampleNode [] with
    mapBlockIndex := update (fun _ => none) 105 (some { hashBlock := 105, nChainTrust := 1 })
    nBestHeight := 0
    nBestChainTrust := 1
    txdb := ⟨update (fun _ => none) .hashBestChain (some (.hash 105)), none⟩ }

theorem onlyGenesis_genesisNode : OnlyGenesis 105 genesisNode :=
  ⟨⟨_, rfl, rfl, rfl, rfl, rfl⟩, rfl, rfl, rfl, rfl, rfl, rfl⟩

/-- A block on top of the genesis block, with hash 120. -/
def tipBlock : CBlock := rewardBlock 105 20 (rewardTx 10 0x51 (10000 * coin))

/-- A competing branch of three blocks, with hashes 190, 180 and 185.  The time of the first one is
the latest; the coinbase of the last one claims too much. -/
def branchBlocks : List CBlock :=
  [rewardBlock 105 90 (rewardTx 10 0x51 (10000 * coin)),
    rewardBlock 190 80 (rewardTx 11 0x52 (10000 * coin)),
    rewardBlock 180 85 (rewardTx 12 0x53 (20000 * coin))]

def branchEnv : Env :=
  Env.permissive sampleTxHash sampleBlockHash (fun _ _ _ _ _ _ => true)
    (BlockFiles.ofBlocks (tipBlock :: branchBlocks))

def arrival (nAdjustedTime : Int) (nFile : Nat) (block : CBlock) : Arrival :=
  ⟨fun _ => { sampleCtx with nAdjustedTime := nAdjustedTime }, block, nFile, 8, 0⟩

/-- The block passes `CheckBlock` and the checks of `AcceptBlock` on arrival. -/
def Arrival.accepted (env : Env) (node : Node) (a : Arrival) : Bool :=
  let ctx := a.ctx (env.getBlockHash a.block)
  (checkBlock env ctx (node.pindexBest.bind node.mapBlockIndex) a.block true true true).isOk &&
    (acceptBlockChecks env ctx node a.block).isOk

/-- The four blocks arrive one after the other.  Between the second and the third arrival the adjusted
time goes back. -/
def branchArrivals : List Arrival :=
  List.zipWith (fun nAdjustedTime (block, i) => arrival nAdjustedTime (i + 1) block) [60, 60, 50, 60]
    (tipBlock :: branchBlocks).zipIdx

def branchNode (n : Nat) : Node :=
  (branchArrivals.take n).foldl (fun node a => a.add branchEnv node) genesisNode

theorem branchStep {P : Node → Arrival → Prop} (n : Nat) {a : Arrival}
    (ha : branchArrivals[n]? = some a) (hvalid : a.Valid branchEnv (branchNode n))
    (hP : P (branchNode n) a) : IndexStep branchEnv P (branchNode n) (branchNode (n + 1)) := by
  refine ⟨a, hvalid, hP, ?_⟩
  rw [branchNode, List.take_add_one, ha, List.foldl_append]
  rfl

/-- **A postponed block fails.**  When the second block of the branch arrives, the first one is too far
in the future to be connected.  When the third one arrives, both can be connected, but it cannot: the
globals point to it, the database and `pnext` to the block before. -/
theorem indexRun_disagrees :
    OnlyGenesis 105 genesisNode ∧
    ReflTransGen (IndexStep branchEnv fun node a => a.accepted branchEnv node = true) genesisNode
      (branchNode 4) ∧
    (branchNode 4).hashBestChain = 185 ∧ (branchNode 4).pindexBest = some 185 ∧
    (branchNode 4).txdb.readHashBestChain = some 180 ∧ ¬ BestChainAgrees (branchNode 4) := by
  have hbest : (branchNode 4).pindexBest = some 185 := by decide
  have hstored : (branchNode 4).txdb.readHashBestChain = some 180 := by decide
  refine ⟨onlyGenesis_genesisNode, ?_, by decide, hbest, hstored, ?_⟩
  · refine (((ReflTransGen.single (branchStep 0 rfl ⟨?_, ?_⟩ ?_)).tail
      (branchStep 1 rfl ⟨?_, ?_⟩ ?_)).tail (branchStep 2 rfl ⟨?_, ?_⟩ ?_)).tail
      (branchStep 3 rfl ⟨?_, ?_⟩ ?_) <;> decide
  · rintro ⟨tip, entry, -, hbest', -, -, -, hstored', -⟩
    rw [hbest] at hbest'
    rw [hstored, ← hbest'] at hstored'
    cases hstored'

/-- The first three arrivals postpone nothing. -/
theorem indexRun_agree_branch : BestChainAgrees (branchNode 3) ∧
    (branchNode 3).txdb.readHashBestChain = some 120 := by
  have hrun : ReflTransGen (IndexStep branchEnv fun node a => a.postponedConnect branchEnv node = true)
      genesisNode (branchNode 3) := by
    refine ((ReflTransGen.single (branchStep 0 rfl ⟨?_, ?_⟩ ?_)).tail
      (branchStep 1 rfl ⟨?_, ?_⟩ ?_)).tail (branchStep 2 rfl ⟨?_, ?_⟩ ?_) <;> decide
  exact ⟨indexRun_agree onlyGenesis_genesisNode hrun, by decide⟩

end Sphinx
