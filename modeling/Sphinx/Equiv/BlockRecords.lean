import Mathlib.Data.Set.Finite.Basic
import Sphinx.Equiv.BestChain
import Sphinx.LoadBlockIndex

/-!
# The stored block index

The record of a block is written when the block is added, when it is connected, and whenever the block
after it in the main chain changes.  In memory the pointers `pnext` change only after the commit, so
while a batch is open the records are ahead of them: they are those of an index that differs from the
one in memory in `pnext` only, and there follows the chain to the block that was connected last
(`StoredTip`).  Once the tip in memory is that block, the records are those of the entries in memory
(`StoredTip.persisted`).

* `addStep_recorded`: a call of `AddToBlockIndex` in which every `ConnectBlock` succeeds keeps memory
  and records the same;
* `indexRun_recorded`: so does every run of such calls.
-/

namespace Sphinx

open ParentTree Relation
open CDiskBlockIndex (ofIndex)
open Function (update_of_ne update_self)

variable {env : Env} {ctx : Uint256 → Ctx} {genesis tip : Uint256} {node node' : Node}
variable {m stored : BlockMap} {txdb txdb' : CTxDB}
variable {e pindex pindexNew : CBlockIndex} {m' : BlockMap} {p : Uint256} {block : CBlock} {a : Arrival}
variable {e' : CBlockIndex}

/-- The stored records are those of the entries of `m`. -/
def Persisted (m : BlockMap) (txdb : CTxDB) : Prop :=
  ∀ h, txdb.view (.blockindex h) = (m h).map fun e => .diskIndex (ofIndex e)

theorem Persisted.of_frame {W : DbKey → Prop} (h : Persisted m txdb)
    (hframe : CTxDB.Frame W txdb txdb') (hW : ∀ h, ¬ W (.blockindex h)) : Persisted m txdb' := by
  intro k
  rw [hframe.view_eq _ (hW k)]
  exact h k

theorem Persisted.of_view (h : Persisted m txdb)
    (hview : ∀ h, txdb'.view (.blockindex h) = txdb.view (.blockindex h)) : Persisted m txdb' := by
  intro k
  rw [hview k]
  exact h k

theorem Persisted.writeBlockIndex (h : Persisted m txdb) {hash : Uint256} (hhash : e.hashBlock = hash) :
    Persisted (Function.update m hash (some e))
      (txdb.writeBlockIndex (ofIndex e)) := by
  subst hhash
  intro k
  rw [CTxDB.writeBlockIndex, CTxDB.view_write]
  by_cases hk : k = e.hashBlock
  · subst hk
    rw [update_self]
    exact update_self _ _ _
  · rw [update_of_ne hk, update_of_ne, h k]
    exact fun hc => hk (DbKey.blockindex.inj hc)

theorem CBlockIndex.sameButNext.symm (h : e'.sameButNext e) :
    e.sameButNext e' := by
  unfold sameButNext at *
  rw [h]

theorem CBlockIndex.sameButNext.eq (h : e'.sameButNext e)
    (hnext : e'.pnext = e.pnext) : e' = e := by
  unfold sameButNext at h
  rw [h, hnext]

theorem Entrywise.symm {R : CBlockIndex → CBlockIndex → Prop} (hR : ∀ {e e'}, R e' e → R e e')
    (h : Entrywise R m' m) : Entrywise R m m' := by
  intro k
  cases hm : m k with
  | none =>
    rw [(h.none_iff k).mpr hm]
    exact .none
  | some e =>
    obtain ⟨e', he', hrel⟩ := h.exists_left hm
    rw [he']
    exact .some (hR hrel)

/-- The record of the block before `pindex` is written with another `hashNext`. -/
theorem Persisted.writeHashNext (h : Persisted stored txdb)
    (hsame : Entrywise CBlockIndex.sameButNext stored node.mapBlockIndex)
    (hkey : HashKeyed node.mapBlockIndex) (hprev : pindex.pprev = some p)
    (he : node.mapBlockIndex p = some e) (hparent : parentOf stored pindex.hashBlock = some p)
    (pnext : Option Uint256) :
    Persisted (setPrevNext stored pindex.hashBlock pnext)
      (writeHashNext node txdb pindex (pnext.getD 0)) := by
  obtain ⟨e', he', hnext⟩ := hsame.exists_left he
  have hrecord : { ofIndex e with hashNext := pnext.getD 0 }
      = ofIndex { e' with pnext := pnext } := by
    rw [hnext]
    rfl
  have hhash : e'.hashBlock = p := hnext.sameCore.hashBlock.trans (hkey he)
  simp only [Sphinx.writeHashNext, hprev, Option.bind_some, he, hrecord]
  rw [setPrevNext_eq hparent he']
  exact h.writeBlockIndex hhash

/-! ### The tip of the stored index -/

/-- The records are those of an index that differs from the one in memory in `pnext` only, where it
follows the chain to `tip`. -/
def StoredTip (node : Node) (tip : Uint256) : Prop :=
  ∃ stored, Entrywise CBlockIndex.sameButNext stored node.mapBlockIndex ∧
    Follows (parentOf stored) (nextOf stored) tip ∧ Persisted stored node.txdb

/-- When a batch is opened, the records are those of the entries in memory. -/
theorem ChainTip.storedTip (h : ChainTip genesis node tip)
    (hpersisted : Persisted node.mapBlockIndex node.txdb) :
    StoredTip node.begun tip := by
  refine ⟨node.mapBlockIndex, Entrywise.refl CBlockIndex.sameButNext_refl _, h.follows,
    hpersisted.of_view fun k => ?_⟩
  rw [CTxDB.view_txnBegin, CTxDB.view, h.batch]
  rfl

/-- **The records are those of the entries in memory** once `pnext` in memory follows the chain to the
same block. -/
theorem StoredTip.persisted (h : StoredTip node tip)
    (hfollows : Follows (parentOf node.mapBlockIndex) (nextOf node.mapBlockIndex) tip) :
    Persisted node.mapBlockIndex node.txdb := by
  obtain ⟨stored, hsame, hstored, hpersisted⟩ := h
  have htree : SameTree stored node.mapBlockIndex := hsame.mono CBlockIndex.sameButNext.sameCore
  rw [htree.parentOf_eq] at hstored
  have hnext := hstored.next_unique hfollows
  have heq : stored = node.mapBlockIndex := by
    funext k
    cases hk : node.mapBlockIndex k with
    | none => exact (hsame.none_iff k).mpr hk
    | some e =>
      obtain ⟨e', he', hrel⟩ := hsame.exists_left hk
      have hk' := congrFun hnext k
      rw [nextOf_eq he', nextOf_eq hk] at hk'
      rw [he', hrel.eq hk']
  rw [← heq]
  exact hpersisted

/-- Changes of `pnext` in memory, and of the database outside the block index. -/
theorem StoredTip.congr (h : StoredTip node tip)
    (hmap : Entrywise CBlockIndex.sameButNext node'.mapBlockIndex node.mapBlockIndex)
    (hview : ∀ h, node'.txdb.view (.blockindex h) = node.txdb.view (.blockindex h)) :
    StoredTip node' tip := by
  obtain ⟨stored, hsame, hfollows, hpersisted⟩ := h
  exact ⟨stored, Entrywise.trans CBlockIndex.sameButNext.trans hsame
    (hmap.symm CBlockIndex.sameButNext.symm), hfollows, hpersisted.of_view hview⟩

theorem view_writeHashBestChain_commit (txdb : CTxDB) (hash h : Uint256) :
    (txdb.writeHashBestChain hash).txnCommit.view (.blockindex h) = txdb.view (.blockindex h) := by
  rw [CTxDB.view_txnCommit, CTxDB.writeHashBestChain, CTxDB.view_write,
    update_of_ne (by simp)]

/-- `DisconnectBlock` leaves the index in memory alone and moves the tip of the stored one down. -/
theorem disconnectBlock_storedTip (ht : IndexTree node.mapBlockIndex genesis)
    (h : StoredTip node pindex.hashBlock) (hentry : node.mapBlockIndex pindex.hashBlock = some pindex)
    (hprev : pindex.pprev = some p) (hok : disconnectBlock env node block pindex = .ok node') :
    StoredTip node' p ∧ node'.mapBlockIndex = node.mapBlockIndex := by
  obtain ⟨stored, hsame, hfollows, hpersisted⟩ := h
  have htree : SameTree stored node.mapBlockIndex := hsame.mono CBlockIndex.sameButNext.sameCore
  have hparent : parentOf node.mapBlockIndex pindex.hashBlock = some p := by
    rw [parentOf_eq hentry, hprev]
  have hpmem := ht.graded.parent_mem (mem_indexed hentry) hparent
  obtain ⟨e, he⟩ := exists_of_mem_indexed hpmem
  rw [← htree.parentOf_eq] at hparent
  have hloop := frame_foldlM (frame_disconnectInputs env) block.vtx.reverse node.txdb
  unfold disconnectBlock at hok
  split at hok
  · cases hok
  · next txdb hfold =>
    rw [hfold, dbOf] at hloop
    obtain rfl := Except.ok.inj hok
    have hwritten := (hpersisted.of_frame hloop (by rintro k ⟨_, hc⟩; cases hc)).writeHashNext hsame
      ht.hash hprev he hparent none
    have hretract := hfollows.retract (ht.congr htree).graded
      (htree.mem_indexed (mem_indexed hentry)) hparent
    rw [← nextOf_setPrevNext hparent (htree.mem_indexed hpmem),
      ← (sameTree_setPrevNext stored pindex.hashBlock none).parentOf_eq] at hretract
    exact ⟨⟨_, Entrywise.trans CBlockIndex.sameButNext.trans
      (sameButNext_setPrevNext stored pindex.hashBlock none) hsame, hretract, hwritten⟩, rfl⟩

/-- What `ConnectBlock` writes into the block index. -/
theorem connectBlock_written {ctx : Ctx} (hok : connectBlock env ctx node block pindex = .ok node') :
    ∃ st txdb,
      node'.mapBlockIndex = Function.update node.mapBlockIndex pindex.hashBlock
        (some (recordSupply node.mapBlockIndex pindex st)) ∧
      (∀ h, txdb.view (.blockindex h) = (node.txdb.writeBlockIndex (ofIndex
        (recordSupply node.mapBlockIndex pindex st))).view (.blockindex h)) ∧
      node'.txdb = writeHashNext node' txdb (recordSupply node.mapBlockIndex pindex st)
        pindex.hashBlock := by
  unfold connectBlock at hok
  split at hok
  · cases hok
  · next st _ =>
    set entry := recordSupply node.mapBlockIndex pindex st with hentry
    have haddr := frame_writtenAddrs env node block (writtenQueued node entry st)
    rw [connectWrites_eq] at hok
    simp only [← hentry] at hok
    split at hok
    · cases hok
    · next txdb heq =>
      rw [heq, dbOf] at haddr
      obtain rfl := Except.ok.inj hok
      refine ⟨st, txdb, rfl, fun h => ?_, rfl⟩
      rw [haddr.view_eq _ (by rintro ⟨_, hc⟩; cases hc)]
      exact (frame_writeQueued _ _).view_eq _ (by rintro ⟨_, hc⟩; cases hc)

/-- `ConnectBlock` records the supply in both indexes and moves the tip of the stored one up. -/
theorem connectBlock_storedTip {ctx : Ctx} (ht : IndexTree node.mapBlockIndex genesis)
    (h : StoredTip node p) (hentry : node.mapBlockIndex pindex.hashBlock = some pindex)
    (hprev : pindex.pprev = some p) (hnext : pindex.pnext = none)
    (hok : connectBlock env ctx node block pindex = .ok node') :
    StoredTip node' pindex.hashBlock := by
  obtain ⟨stored, hsame, hfollows, hpersisted⟩ := h
  obtain ⟨st, txdb, hmap, hview, htxdb⟩ := connectBlock_written hok
  set entry := recordSupply node.mapBlockIndex pindex st with hentry'
  have htree : SameTree stored node.mapBlockIndex := hsame.mono CBlockIndex.sameButNext.sameCore
  have hparent : parentOf node.mapBlockIndex pindex.hashBlock = some p := by
    rw [parentOf_eq hentry, hprev]
  have hpmem := ht.graded.parent_mem (mem_indexed hentry) hparent
  rw [← htree.parentOf_eq] at hparent
  have ht' := ht.congr htree
  -- nothing follows the block yet, neither in memory nor in the records
  obtain ⟨e, he, hrel⟩ := hsame.exists_left hentry
  have hlast : nextOf stored pindex.hashBlock = none := by
    by_contra hne
    obtain ⟨n, hn⟩ := Option.ne_none_iff_exists'.mp hne
    obtain ⟨hp, hanc⟩ := (hfollows _ n).mp hn
    exact ht'.graded.not_ancestor_parent (htree.mem_indexed (mem_indexed hentry)) hparent
      (hanc.trans (.of_parent hp (ancestor_refl _)))
  obtain rfl : e = pindex := hrel.eq (by rw [← nextOf_eq he, hlast, hnext])
  -- the index with the supply recorded
  have hsupply : SameTree (Function.update stored e.hashBlock (some entry)) stored :=
    Entrywise.update SameCore.refl he ⟨rfl, rfl, rfl, rfl, rfl, rfl⟩
  have hsame' : Entrywise CBlockIndex.sameButNext
      (Function.update stored e.hashBlock (some entry)) node'.mapBlockIndex := by
    rw [hmap]
    exact hsame.update_both rfl
  have hnextOf : nextOf (Function.update stored e.hashBlock (some entry)) = nextOf stored := by
    have hpnext : entry.pnext = nextOf stored e.hashBlock := (nextOf_eq he).symm
    rw [nextOf_update, hpnext, Function.update_eq_self]
  have hwritten : Persisted (Function.update stored e.hashBlock (some entry)) txdb :=
    (hpersisted.writeBlockIndex rfl).of_view hview
  rw [← hsupply.parentOf_eq] at hparent hfollows
  rw [← hnextOf] at hfollows
  have hpmem' := hsupply.mem_indexed (htree.mem_indexed hpmem)
  have hextend := hfollows.extend (ht'.congr hsupply).graded
    (hsupply.mem_indexed (htree.mem_indexed (mem_indexed hentry))) hparent
  rw [← nextOf_setPrevNext hparent hpmem',
    ← (sameTree_setPrevNext _ e.hashBlock (some e.hashBlock)).parentOf_eq] at hextend
  refine ⟨_, Entrywise.trans CBlockIndex.sameButNext.trans
    (sameButNext_setPrevNext _ e.hashBlock (some e.hashBlock)) hsame', hextend, ?_⟩
  obtain ⟨ep, hep⟩ := exists_of_mem_indexed hpmem'
  obtain ⟨ep', hep', -⟩ := hsame'.exists_right hep
  rw [htxdb]
  have hkey : HashKeyed node'.mapBlockIndex := by
    rw [hmap]
    exact HashKeyed.insert ht.hash entry
  exact hwritten.writeHashNext hsame' hkey hprev hep' hparent (some e.hashBlock)

/-! ### Attaching a block -/

theorem ChainTip.pnext_eq_none (h : ChainTip genesis node tip)
    (hentry : node.mapBlockIndex pindex.hashBlock = some pindex)
    (hanc : ¬ Ancestor (parentOf node.mapBlockIndex) tip pindex.hashBlock) : pindex.pnext = none := by
  by_contra hne
  rw [← nextOf_eq hentry] at hne
  exact hanc ((h.follows.ancestor_iff _).mp (.inl hne))

theorem setBestChainInner_persisted (h : ChainTip genesis node tip)
    (hpersisted : Persisted node.mapBlockIndex node.txdb)
    (hentry : node.mapBlockIndex pindexNew.hashBlock = some pindexNew)
    (hparent : parentOf node.mapBlockIndex pindexNew.hashBlock = some tip)
    (hhash : env.getBlockHash block = pindexNew.hashBlock)
    (hok : setBestChainInner env ctx node.begun block pindexNew = .ok node') :
    Persisted node'.mapBlockIndex node'.txdb := by
  obtain ⟨htip, -⟩ := setBestChainInner_ok h hentry hparent hhash hok
  have hnext := h.pnext_eq_none hentry
    (h.tree.graded.not_ancestor_parent (mem_indexed hentry) hparent)
  have hprev : pindexNew.pprev = some tip := by
    rw [← parentOf_eq hentry, hparent]
  unfold setBestChainInner at hok
  split at hok
  · cases hok
  · next node1 hconn =>
    obtain rfl := Except.ok.inj hok
    have hbegun : IndexTree node.begun.mapBlockIndex genesis :=
      h.tree
    have hstored := connectBlock_storedTip hbegun (h.storedTip hpersisted) hentry hprev hnext hconn
    refine (hstored.congr ?_ ?_).persisted htip.follows
    · exact sameButNext_setPrevNext _ _ _
    · exact view_writeHashBestChain_commit _ _

/-! ### Switching branches -/

theorem disconnectLoop_storedTip {fork : Uint256} {m : BlockMap} (ht : IndexTree m genesis) :
    ∀ {l : List Uint256} {tip : Uint256} {st st' : Node × List CTransaction}, tip ∈ indexed m →
      IsPath (parentOf m) tip l fork → st.1.mapBlockIndex = m → StoredTip st.1 tip →
      l.foldlM (disconnectTip env) st = .ok st' →
      StoredTip st'.1 fork ∧ st'.1.mapBlockIndex = m := by
  intro l
  induction l with
  | nil =>
    intro tip st st' _ hpath hmap hstored hok
    cases hpath
    obtain rfl := Except.ok.inj hok
    exact ⟨hstored, hmap⟩
  | cons h l ih =>
    intro tip st st' hmem hpath hmap hstored hok
    cases hpath with
    | @cons _ p _ _ hp hpath =>
      rw [List.foldlM_cons, exceptBind_ok] at hok
      obtain ⟨st1, hround, hok⟩ := hok
      obtain ⟨entry, block, hentry, -, hdis, -⟩ := disconnectTip_ok hround
      subst hmap
      obtain rfl := ht.hash hentry
      have hprev : entry.pprev = some p := by
        rw [← parentOf_eq hentry, hp]
      obtain ⟨hstored1, hmap1⟩ := disconnectBlock_storedTip ht hstored hentry hprev hdis
      exact ih (ht.graded.parent_mem hmem hp) hpath hmap1 hstored1 hok

/-- A failure of the disconnecting loop leaves the index in memory alone. -/
theorem disconnectLoop_error {l : List Uint256} {st : Node × List CTransaction} {e : Reject × Node}
    (herror : l.foldlM (disconnectTip env) st = .error e) :
    e.2.mapBlockIndex = st.1.mapBlockIndex := by
  have hround : ∀ {st st' : Node × List CTransaction} {h}, disconnectTip env st h = .ok st' →
      st'.1.mapBlockIndex = st.1.mapBlockIndex := by
    intro st st' h hok
    obtain ⟨entry, block, -, -, hdis, -⟩ := disconnectTip_ok hok
    unfold disconnectBlock at hdis
    split at hdis
    · cases hdis
    · rw [← Except.ok.inj hdis]
  -- the rounds before the one that fails, and then that one
  obtain ⟨_, x, _, st', -, hmap, hfails⟩ := Loop.foldlM_error
    (fun _ st' => st'.1.mapBlockIndex = st.1.mapBlockIndex) herror rfl
    fun _ _ _ _ _ _ hI hok => (hround hok).trans hI
  rw [← hmap]
  obtain ⟨node, vResurrect⟩ := st'
  simp only [disconnectTip] at hfails
  cases hread : readIndexed env node x "Reorganize() : ReadFromDisk for disconnect failed" with
  | error e' =>
    rw [hread, exceptError_bind] at hfails
    rw [← Except.error.inj hfails, readIndexed_error hread]
  | ok p =>
    obtain ⟨entry, block⟩ := p
    rw [hread, exceptOk_bind] at hfails
    simp only [disconnectBlock] at hfails
    split at hfails
    · next r node' hdis =>
      rw [← Except.error.inj hfails]
      split at hdis
      · rw [← (Prod.mk.inj (Except.error.inj hdis)).2]
      · cases hdis
    · cases hfails

/-- Every `ConnectBlock` of the connecting loop succeeds. -/
def connectsTips (env : Env) (ctx : Uint256 → Ctx) : List Uint256 → Node → Bool
  | [], _ => true
  | pindex :: rest, node =>
    match readIndexed env node pindex "Reorganize() : ReadFromDisk for connect failed" with
    | .error _ => true
    | .ok (entry, block) =>
      match connectBlock env (ctx pindex) node block entry with
      | .error _ => false
      | .ok node => connectsTips env ctx rest node

/-- Where every `ConnectBlock` succeeds, so does the connecting loop. -/
theorem connectLoop_storedTip {new : Uint256} :
    ∀ {l : List Uint256} {tip : Uint256} {node : Node} (vDelete : List CTransaction),
      IndexTree node.mapBlockIndex genesis → Readable env node.mapBlockIndex genesis →
      new ∈ indexed node.mapBlockIndex →
      IsPath (parentOf node.mapBlockIndex) new l.reverse tip →
      (∀ h ∈ l, nextOf node.mapBlockIndex h = none) → StoredTip node tip →
      connectsTips env ctx l node = true →
      ∃ st', l.foldlM (connectTip env ctx) (node, vDelete) = .ok st' ∧ StoredTip st'.1 new := by
  intro l
  induction l with
  | nil =>
    intro tip node vDelete _ _ _ hpath _ hstored _
    cases hpath
    exact ⟨_, rfl, hstored⟩
  | cons h l ih =>
    intro tip node vDelete ht hread hmem hpath hnext hstored hconnects
    obtain ⟨entry, block, rfl, hentry, hparent, hpath, hblock, hreadIndexed⟩ :=
      hread.readIndexed_next ht hmem hpath "Reorganize() : ReadFromDisk for connect failed"
    simp only [connectsTips, hreadIndexed] at hconnects
    cases hconn : connectBlock env (ctx entry.hashBlock) node block entry with
    | error e =>
      rw [hconn] at hconnects
      cases hconnects
    | ok node1 =>
      rw [hconn] at hconnects
      have hstaged := staged_connectBlock env (ctx entry.hashBlock) node block hentry
      rw [hconn, nodeOf] at hstaged
      have hprev : entry.pprev = some tip := by
        rw [← parentOf_eq hentry, hparent]
      have hlast : entry.pnext = none := by
        rw [← nextOf_eq hentry]
        exact hnext _ List.mem_cons_self
      have hstored1 := connectBlock_storedTip ht hstored hentry hprev hlast hconn
      rw [← hstaged.sameTree.parentOf_eq] at hpath
      obtain ⟨st', hfold, hstored'⟩ := ih (vDelete ++ block.vtx) (ht.congr hstaged.sameTree)
        (hread.congr hstaged.sameTree)
        (hstaged.sameTree.mem_indexed hmem) hpath
        (fun k hk => by rw [hstaged.nextOf_eq]; exact hnext k (List.mem_cons_of_mem _ hk))
        hstored1 hconnects
      refine ⟨st', ?_, hstored'⟩
      rw [List.foldlM_cons, ← hfold]
      simp only [connectTip, hreadIndexed, exceptOk_bind, hconn]
      rfl

/-- Every `ConnectBlock` of `Reorganize` succeeds. -/
def reorganizeConnects (env : Env) (ctx : Uint256 → Ctx) (node : Node) (pindexNew : CBlockIndex) :
    Bool :=
  match node.pindexBest.bind node.mapBlockIndex with
  | none => true
  | some pindexBest =>
    match findBranches node.mapBlockIndex pindexBest pindexNew with
    | .error _ => true
    | .ok (vDisconnect, vConnect) =>
      match vDisconnect.foldlM (disconnectTip env) (node, []) with
      | .error _ => true
      | .ok (node, _) => connectsTips env ctx vConnect node

/-- **`Reorganize` keeps memory and records the same.**  If no `ConnectBlock` fails, then it fails
before it has changed the index in memory, or it switches in both. -/
theorem reorganize_persisted (h : BestInv env genesis node tip)
    (hpersisted : Persisted node.mapBlockIndex node.txdb)
    (hentry : node.mapBlockIndex pindexNew.hashBlock = some pindexNew)
    (hconnects : reorganizeConnects env ctx node.begun pindexNew = true) :
    (∀ e, reorganize env ctx node.begun pindexNew = .error e →
      e.2.mapBlockIndex = node.mapBlockIndex) ∧
    ∀ node', reorganize env ctx node.begun pindexNew = .ok node' →
      Persisted node'.mapBlockIndex node'.txdb := by
  have ht := h.chainTip.tree
  obtain ⟨etip, hetip⟩ := exists_of_mem_indexed h.chainTip.mem
  obtain rfl := ht.hash hetip
  obtain ⟨pfork, vDisconnect, vConnect, hbranches, hlca, hpath, hpath'⟩ :=
    findBranches_spec ht hetip hentry
  set begun : Node := node.begun with hbegun
  have heq := reorganize_eq env ctx begun h.best hetip hbranches
  have hbest : begun.pindexBest.bind begun.mapBlockIndex = some etip := by
    show node.pindexBest.bind node.mapBlockIndex = some etip
    rw [h.best, Option.bind_some, hetip]
  simp only [reorganizeConnects, hbest] at hconnects
  rw [show findBranches begun.mapBlockIndex etip pindexNew = .ok (vDisconnect, vConnect) from hbranches]
    at hconnects
  cases hdis : vDisconnect.foldlM (disconnectTip env) (begun, []) with
  | error e =>
    have hreorganize : reorganize env ctx begun pindexNew = .error e := by
      rw [heq, switchBranches, hdis]
      rfl
    refine ⟨fun e' he => ?_, fun node' hok => ?_⟩
    · rw [hreorganize] at he
      rw [← Except.error.inj he]
      exact disconnectLoop_error hdis
    · rw [hreorganize] at hok
      cases hok
  | ok st =>
    obtain ⟨node1, vResurrect⟩ := st
    obtain ⟨hstored, hmap⟩ := disconnectLoop_storedTip ht h.chainTip.mem hpath rfl
      (h.chainTip.storedTip hpersisted) hdis
    simp only [hdis] at hconnects
    simp only at hstored hmap
    -- nothing follows a block of the new branch
    have hlast : ∀ k ∈ vConnect, nextOf node1.mapBlockIndex k = none := by
      intro k hk
      have hnot := hlca.not_ancestor ht.graded hpath' (mem_indexed hentry)
        (List.mem_reverse.mpr hk)
      rw [hmap]
      by_contra hne
      exact hnot ((h.chainTip.follows.ancestor_iff k).mp (.inl hne))
    obtain ⟨st', hconn, hstored'⟩ := connectLoop_storedTip []
      (by rw [hmap]; exact ht) (by rw [hmap]; exact h.readable)
      (by rw [hmap]; exact mem_indexed hentry) (by rw [hmap]; exact hpath') hlast hstored hconnects
    obtain ⟨node2, vDelete⟩ := st'
    have hswitch : switchBranches env ctx begun vDisconnect vConnect
        = .ok (node2, vResurrect, vDelete) := by
      rw [switchBranches, hdis, exceptOk_bind]
      simp only [hconn, exceptOk_bind]
      rfl
    refine ⟨fun e he => ?_, fun node' hok => ?_⟩
    · rw [heq, hswitch] at he
      cases he
    · obtain ⟨htip, -⟩ := reorganize_ok h.chainTip h.best hentry hok
      rw [heq, hswitch] at hok
      obtain ⟨mempool, walletSyncs, hfinish⟩ := finishReorganize_eq env ctx
        { node2 with txdb := (node2.txdb.writeHashBestChain pindexNew.hashBlock).txnCommit }
        vDisconnect vConnect vResurrect vDelete
      obtain rfl := (Except.ok.inj hok).symm.trans hfinish
      refine (hstored'.congr ?_ ?_).persisted htip.follows
      · exact Entrywise.trans CBlockIndex.sameButNext.trans
          (sameButNext_foldl_setPrevNext some vConnect _)
          (sameButNext_foldl_setPrevNext (fun _ => none) vDisconnect _)
      · exact view_writeHashBestChain_commit _ _

/-- The postponed blocks, where each of them is connected. -/
theorem connectFurther_persisted {new : Uint256} :
    ∀ (l : List Uint256) {node : Node} {tip : Uint256}, ChainTip genesis node tip →
      Readable env node.mapBlockIndex genesis → new ∈ indexed node.mapBlockIndex →
      IsPath (parentOf node.mapBlockIndex) new l.reverse tip →
      Persisted node.mapBlockIndex node.txdb → connectsFurther env ctx l node = true →
      Persisted (connectFurther env ctx l node).mapBlockIndex (connectFurther env ctx l node).txdb := by
  intro l
  induction l with
  | nil => exact fun _ _ _ _ hpersisted _ => hpersisted
  | cons pindex rest ih =>
    intro node tip h hread hmem hpath hpersisted hconnects
    obtain ⟨entry, block, rfl, hentry, hparent, hpath, hblock, hreadIndexed⟩ :=
      hread.readIndexed_next h.tree hmem hpath "SetBestChain() : ReadFromDisk failed"
    simp only [connectsFurther, hreadIndexed] at hconnects
    simp only [connectFurther, hreadIndexed]
    cases hinner : setBestChainInner env ctx node.begun block entry with
    | error e =>
      rw [hinner] at hconnects
      cases hconnects
    | ok node1 =>
      rw [hinner] at hconnects
      have hhash := (readBlockFromDisk_ok hblock).2
      obtain ⟨htip, hkept⟩ := setBestChainInner_ok h hentry hparent hhash hinner
      have hpersisted1 := setBestChainInner_persisted h hpersisted hentry hparent hhash hinner
      rw [← hkept.1.parentOf_eq] at hpath
      exact ih htip (hread.congr hkept.1) (hkept.1.mem_indexed hmem) hpath hpersisted1 hconnects

/-- Every `ConnectBlock` of the branch of `SetBestChain` that switches branches succeeds. -/
def switchConnects (env : Env) (ctx : Uint256 → Ctx) (node : Node) (pindexNew : CBlockIndex) : Bool :=
  match node.pindexBest.bind node.mapBlockIndex with
  | none => true
  | some pindexBest =>
    reorganizeConnects env ctx node.begun
      (postpone node.mapBlockIndex pindexBest.nChainTrust (pindexNew.nHeight + 1) pindexNew []).1 &&
    postponedConnect env ctx node pindexNew

/-- A failure before the index in memory has changed. -/
theorem Persisted.failed (hpersisted : Persisted node.mapBlockIndex node.txdb)
    (hbatch : node.txdb.activeBatch = none)
    (hstaged : Staged node.begun node')
    (hmap : node'.mapBlockIndex = node.mapBlockIndex) (pindexNew : CBlockIndex) :
    Persisted (failed node' pindexNew).mapBlockIndex (failed node' pindexNew).txdb := by
  obtain ⟨trust, pdb, heq, hpdb⟩ :=
    invalidChainFound_eq { node' with txdb := node'.txdb.txnAbort } pindexNew
  rw [Sphinx.failed, heq]
  intro k
  show pdb (.blockindex k) = _
  rw [hpdb _ (by simp), hstaged.txnAbort_eq hbatch]
  simp only [hmap]
  rw [← hpersisted k, CTxDB.view, hbatch]
  rfl

theorem switchBestChain_persisted (h : BestInv env genesis node tip)
    (hpersisted : Persisted node.mapBlockIndex node.txdb)
    (hentry : node.mapBlockIndex pindexNew.hashBlock = some pindexNew)
    (hconnects : switchConnects env ctx node pindexNew = true) :
    (∀ e, switchBestChain env ctx node.begun pindexNew = .error e →
      Persisted e.2.mapBlockIndex e.2.txdb ∧ Kept node e.2) ∧
    ∀ node', switchBestChain env ctx node.begun pindexNew = .ok node' →
      Persisted node'.mapBlockIndex node'.txdb := by
  obtain ⟨etip, pindexIntermediate, l, hbest, hpostpone, hmid, hpath⟩ := h.chainTip.postpone h.best hentry
  simp only [switchConnects, postponedConnect, hbest, hpostpone, Bool.and_eq_true] at hconnects
  obtain ⟨hreorganizes, hpostponed⟩ := hconnects
  obtain ⟨herror, hok⟩ := reorganize_persisted h hpersisted hmid hreorganizes
  simp only [switchBestChain, hbest, hpostpone]
  cases hreorganize : reorganize env ctx node.begun pindexIntermediate
    with
  | error e =>
    refine ⟨fun e' he => ?_, fun _ hok => by cases hok⟩
    rw [← Except.error.inj he]
    have hstaged := reorganize_error h.chainTip h.best hmid hreorganize
    exact ⟨hpersisted.failed h.chainTip.batch hstaged (herror e hreorganize) pindexNew,
      (h.chainTip.failed hstaged pindexNew).2⟩
  | ok node1 =>
    refine ⟨fun e' he => (by cases he), fun node' hok' => ?_⟩
    obtain rfl := Except.ok.inj hok'
    rw [hreorganize] at hpostponed
    obtain ⟨htip, hkept⟩ := reorganize_ok h.chainTip h.best hmid hreorganize
    rw [← hkept.1.parentOf_eq, ← l.reverse_reverse] at hpath
    exact connectFurther_persisted l.reverse htip (h.readable.congr hkept.1)
      (hkept.1.mem_indexed (mem_indexed hentry)) hpath (hok node1 hreorganize) hpostponed

/-! ### `AddToBlockIndex` -/

/-- What an entry was created with.  `WriteBlockIndex` hashes the header fields of a record to get its
key; `header` says that this is the hash of the block. -/
structure EntryOk (env : Env) (m : BlockMap) (e : CBlockIndex) : Prop where
  header : env.getBlockHash (ofIndex e).getBlockHeader = e.hashBlock
  kernel : e.isProofOfStake = false → e.prevoutStake = COutPoint.null ∧ e.nStakeTime = 0
  trust : e.nChainTrust
    = (e.pprev.bind m).elim 0 CBlockIndex.nChainTrust + env.getBlockTrust e.nBits

theorem EntryOk.congr (h : EntryOk env m e) (he : e'.sameButChain e)
    (hm : SameEntries m' m) : EntryOk env m' e' := by
  have htrust : (e.pprev.bind m').elim 0 CBlockIndex.nChainTrust
      = (e.pprev.bind m).elim 0 CBlockIndex.nChainTrust := by
    cases e.pprev with
    | none => rfl
    | some p =>
      rw [Option.bind_some, Option.bind_some]
      cases hp : m p with
      | none => rw [(hm.none_iff p).mpr hp]
      | some ep =>
        obtain ⟨ep', hep', hcore⟩ := hm.exists_left hp
        rw [hep']
        exact hcore.sameCore.nChainTrust
  refine ⟨?_, ?_, ?_⟩
  · rw [he]
    exact h.header
  · rw [he]
    exact h.kernel
  · rw [he]
    show e.nChainTrust = (e.pprev.bind m').elim 0 CBlockIndex.nChainTrust + env.getBlockTrust e.nBits
    rw [htrust]
    exact h.trust

/-- Memory and records are the same, and the best block is `tip` in both. -/
structure Recorded (env : Env) (genesis : Uint256) (node : Node) (tip : Uint256) : Prop where
  best : BestInv env genesis node tip
  trust : ∀ e, node.mapBlockIndex tip = some e → node.nBestChainTrust = e.nChainTrust
  persisted : Persisted node.mapBlockIndex node.txdb
  entryOk : ∀ h e, node.mapBlockIndex h = some e → EntryOk env node.mapBlockIndex e
  finite : (indexed node.mapBlockIndex).Finite

theorem entryOk_congr (h : ∀ k e, m k = some e → EntryOk env m e) (hsame : SameEntries m' m) :
    ∀ k e, m' k = some e → EntryOk env m' e := by
  intro k e' he'
  obtain ⟨e, he, hcore⟩ := hsame.exists_right he'
  exact (h k e he).congr hcore hsame

theorem Entrywise.indexed_eq {R : CBlockIndex → CBlockIndex → Prop} (h : Entrywise R m' m) :
    indexed m' = indexed m := by
  ext k
  show (m' k).isSome = true ↔ (m k).isSome = true
  rw [Option.isSome_iff_ne_none, Option.isSome_iff_ne_none]
  exact not_congr (h.none_iff k)

theorem Recorded.of_kept (h : Recorded env genesis node tip) (hbest : BestInv env genesis node' tip)
    (hkept : Kept node node') (hsame : SameEntries node'.mapBlockIndex node.mapBlockIndex)
    (hpersisted : Persisted node'.mapBlockIndex node'.txdb) : Recorded env genesis node' tip := by
  refine ⟨hbest, fun e' he' => ?_, hpersisted, entryOk_congr h.entryOk hsame, ?_⟩
  · obtain ⟨e, he, hcore⟩ := hsame.exists_right he'
    have htrust : node'.nBestChainTrust = node.nBestChainTrust := by
      have hglobals := hkept.2
      simp only [Node.globals, Prod.mk.injEq] at hglobals
      exact hglobals.2.2.2.2
    rw [htrust, hcore.sameCore.nChainTrust, h.trust e he]
  · rw [hsame.indexed_eq]
    exact h.finite

theorem Recorded.newBestBlock {hash : Uint256} (h : Recorded env genesis node tip)
    (hentry : node.mapBlockIndex pindexNew.hashBlock = some pindexNew)
    (hhash : hash = pindexNew.hashBlock) (htip : ChainTip genesis node' pindexNew.hashBlock)
    (hkept : Kept node node') (hsame : SameEntries node'.mapBlockIndex node.mapBlockIndex)
    (hpersisted : Persisted node'.mapBlockIndex node'.txdb) :
    Recorded env genesis (newBestBlock node' hash pindexNew) pindexNew.hashBlock := by
  refine ⟨h.best.newBestBlock hentry hhash htip hkept, fun e' he' => ?_, hpersisted,
    entryOk_congr h.entryOk hsame, ?_⟩
  · obtain ⟨e, he, hcore⟩ := hsame.exists_right he'
    obtain rfl := Option.some.inj (he.symm.trans hentry)
    exact hcore.sameCore.nChainTrust.symm
  · show (indexed node'.mapBlockIndex).Finite
    rw [hsame.indexed_eq]
    exact h.finite

theorem setBestChain_recorded (h : Recorded env genesis node tip)
    (hentry : node.mapBlockIndex pindexNew.hashBlock = some pindexNew)
    (hpprev : pindexNew.pprev = some block.hashPrevBlock)
    (hhash : env.getBlockHash block = pindexNew.hashBlock)
    (hextends : block.hashPrevBlock = node.hashBestChain →
        (connectBlock env (ctx pindexNew.hashBlock) node.begun block pindexNew).isOk = true)
    (hswitches : block.hashPrevBlock ≠ node.hashBestChain → switchConnects env ctx node pindexNew = true) :
    ∃ tip', Recorded env genesis (nodeOf (setBestChain env ctx node block pindexNew)) tip' := by
  have hstarted : ¬ (node.pindexGenesisBlock = none ∧ env.getBlockHash block = env.hashGenesisBlock) :=
    fun hgen => h.best.started hgen.1
  have hsame := sameEntries_setBestChain env ctx node block pindexNew h.best.chainTip.tree.hash hentry
  simp only [setBestChain] at hsame ⊢
  rw [if_neg hstarted] at hsame ⊢
  by_cases hext : block.hashPrevBlock = node.hashBestChain
  · -- the new block is a child of the tip; its `ConnectBlock` succeeds
    rw [if_pos hext] at hsame ⊢
    obtain ⟨node1, hconn⟩ := exists_of_isOk (hextends hext)
    have hparent : parentOf node.mapBlockIndex pindexNew.hashBlock = some tip := by
      rw [parentOf_eq hentry, hpprev, hext, h.best.hash]
    cases hinner : setBestChainInner env ctx node.begun block
      pindexNew with
    | error e =>
      rw [setBestChainInner, hconn] at hinner
      cases hinner
    | ok node' =>
      rw [hinner] at hsame
      obtain ⟨htip, hkept⟩ := setBestChainInner_ok h.best.chainTip hentry hparent hhash hinner
      exact ⟨_, h.newBestBlock hentry hhash htip hkept hsame
        (setBestChainInner_persisted h.best.chainTip h.persisted hentry hparent hhash hinner)⟩
  · rw [if_neg hext] at hsame ⊢
    have hconnects := hswitches hext
    obtain ⟨herror, hok⟩ := switchBestChain_inv ctx h.best hentry
    obtain ⟨herror', hok'⟩ := switchBestChain_persisted h.best h.persisted hentry hconnects
    cases hswitch : switchBestChain env ctx node.begun pindexNew with
    | error e =>
      rw [hswitch] at hsame
      obtain ⟨hpersisted, hkept⟩ := herror' e hswitch
      exact ⟨tip, h.of_kept (herror e hswitch) hkept hsame hpersisted⟩
    | ok node' =>
      rw [hswitch] at hsame
      have hpostponed : postponedConnect env ctx node pindexNew = true := by
        obtain ⟨etip, hetip⟩ := exists_of_mem_indexed h.best.chainTip.mem
        have hbest : node.pindexBest.bind node.mapBlockIndex = some etip := by
          rw [h.best.best, Option.bind_some, hetip]
        simp only [switchConnects, hbest, Bool.and_eq_true] at hconnects
        exact hconnects.2
      obtain ⟨htip, hkept⟩ := hok node' hswitch hpostponed
      exact ⟨_, h.newBestBlock hentry hhash htip hkept hsame (hok' node' hswitch)⟩

theorem newBlockIndex_entryOk {nFile nBlockPos : Nat} {hashProof : Uint256}
    (hnull : node.mapBlockIndex block.hashPrevBlock = none → block.hashPrevBlock = 0)
    (hnew : newBlockIndex env node block nFile nBlockPos hashProof = .ok pindex) :
    EntryOk env node.mapBlockIndex pindex := by
  unfold newBlockIndex at hnew
  dsimp only at hnew
  split at hnew
  · cases hnew
  · next nStakeModifier fGenerated _ =>
    obtain rfl := Except.ok.inj hnew
    refine ⟨?_, fun hstake => ?_, ?_⟩
    · -- the null pointer stands for the zero hash in the header
      have hprev : ((node.mapBlockIndex block.hashPrevBlock).map fun _ => block.hashPrevBlock).getD 0
          = block.hashPrevBlock := by
        cases hprev : node.mapBlockIndex block.hashPrevBlock with
        | none => exact (hnull hprev).symm
        | some prev => rfl
      show env.hashHeader { block.header with
        hashPrevBlock := ((node.mapBlockIndex block.hashPrevBlock).map
          fun _ => block.hashPrevBlock).getD 0 } = env.hashHeader block.header
      rw [hprev]
      rfl
    · -- the flag is set together with the kernel
      have hpow : block.isProofOfStake = false := by
        by_contra hpos
        rw [Bool.not_eq_false] at hpos
        simp only [CBlockIndex.isProofOfStake, CBlockIndex.ofBlock, hpos, if_true] at hstake
        revert hstake
        split_ifs <;> decide
      simp [CBlockIndex.ofBlock, hpow]
    · show _ + _ = _
      cases hprev : node.mapBlockIndex block.hashPrevBlock with
      | none => rfl
      | some prev =>
        simp only [Option.map_some, Option.bind_some, hprev]
        rfl

theorem EntryOk.update (h : EntryOk env m e) {k : Uint256} (hk : e.pprev ≠ some k)
    (pindex : CBlockIndex) :
    EntryOk env (Function.update m k (some pindex)) e := by
  refine ⟨h.header, h.kernel, ?_⟩
  cases hprev : e.pprev with
  | none =>
    have htrust := h.trust
    rw [hprev] at htrust
    exact htrust
  | some p =>
    have hne : p ≠ k := by
      rintro rfl
      exact hk hprev
    have htrust := h.trust
    rw [hprev] at htrust
    rw [Option.bind_some, update_of_ne hne]
    exact htrust

/-- Every `ConnectBlock` of the call succeeds. -/
def Arrival.connects (env : Env) (node : Node) (a : Arrival) : Bool :=
  match newBlockIndex env node a.block a.nFile a.nBlockPos a.hashProof with
  | .error _ => true
  | .ok pindexNew =>
    if (node.mapBlockIndex pindexNew.hashBlock).isSome ∨ pindexNew.nChainTrust ≤ node.nBestChainTrust
    then true
    else
      let node := insertBlockIndex node pindexNew
      if node.pindexGenesisBlock = none ∧ pindexNew.hashBlock = env.hashGenesisBlock then true
      else if a.block.hashPrevBlock = node.hashBestChain then
        (connectBlock env (a.ctx pindexNew.hashBlock) node.begun a.block
          pindexNew).isOk
      else switchConnects env a.ctx node pindexNew

theorem Persisted.insertBlockIndex (hpersisted : Persisted node.mapBlockIndex node.txdb)
    (hbatch : node.txdb.activeBatch = none) (pindexNew : CBlockIndex) :
    Persisted (insertBlockIndex node pindexNew).mapBlockIndex
      (insertBlockIndex node pindexNew).txdb := by
  have hbegun : Persisted node.mapBlockIndex node.txdb.txnBegin :=
    hpersisted.of_view fun k => by rw [CTxDB.view_txnBegin, CTxDB.view, hbatch]; rfl
  exact (hbegun.writeBlockIndex rfl).of_view fun k => rfl

theorem Recorded.insert (h : Recorded env genesis node tip) (hvalid : a.Valid env node)
    (hnew : newBlockIndex env node a.block a.nFile a.nBlockPos a.hashProof = .ok pindexNew)
    (hfresh : node.mapBlockIndex pindexNew.hashBlock = none) :
    Recorded env genesis (insertBlockIndex node pindexNew) tip := by
  have ht := h.best.chainTip.tree
  obtain ⟨prev, hprev⟩ := Option.isSome_iff_exists.mp hvalid.parent
  have hmap : (insertBlockIndex node pindexNew).mapBlockIndex
      = Function.update node.mapBlockIndex pindexNew.hashBlock (some pindexNew) := rfl
  have hne : ∀ {k e}, node.mapBlockIndex k = some e → k ≠ pindexNew.hashBlock := by
    rintro k e he rfl
    rw [hfresh] at he
    cases he
  refine ⟨h.best.insert hvalid hnew hfresh, fun e he => ?_,
    h.persisted.insertBlockIndex h.best.chainTip.batch pindexNew, fun k e he => ?_, ?_⟩
  · obtain ⟨etip, hetip⟩ := exists_of_mem_indexed h.best.chainTip.mem
    rw [hmap, update_of_ne (hne hetip)] at he
    exact h.trust e he
  · rw [hmap] at he ⊢
    by_cases hk : k = pindexNew.hashBlock
    · -- the new entry; it is not its own parent
      rw [hk, update_self] at he
      obtain rfl := Option.some.inj he
      refine (newBlockIndex_entryOk (by rw [hprev]; rintro ⟨⟩) hnew).update ?_ pindexNew
      rw [(newBlockIndex_ok hprev hnew).2.1]
      exact fun heq => hne hprev (Option.some.inj heq)
    · -- an old entry; its parent was there before
      rw [update_of_ne hk] at he
      refine (h.entryOk k e he).update (fun heq => ?_) pindexNew
      have hparent : parentOf node.mapBlockIndex k = some pindexNew.hashBlock := by
        rw [parentOf_eq he, heq]
      obtain ⟨ep, hep⟩ := exists_of_mem_indexed (ht.graded.parent_mem (mem_indexed he) hparent)
      exact hne hep rfl
  · refine (h.finite.insert pindexNew.hashBlock).subset fun k hk => ?_
    by_cases heq : k = pindexNew.hashBlock
    · exact .inl heq
    · right
      obtain ⟨e, he⟩ := exists_of_mem_indexed hk
      rw [hmap, update_of_ne heq] at he
      exact mem_indexed he

/-- **One call of `AddToBlockIndex`** in which every `ConnectBlock` succeeds. -/
theorem addStep_recorded (h : Recorded env genesis node tip) (hvalid : a.Valid env node)
    (hconnects : a.connects env node = true) :
    ∃ tip', Recorded env genesis (a.add env node) tip' := by
  rcases Arrival.add_cases hvalid with ⟨hadd, -⟩ | ⟨hadd, -⟩
    | ⟨pindexNew, hnew, hfresh, hhash, hpprev, hentry, hadd⟩
  · rw [hadd]
    exact ⟨tip, h⟩
  · rw [hadd]
    exact ⟨tip, h.of_kept (h.best.of_kept (h.best.chainTip.congr rfl rfl) (Kept.refl node))
      (Kept.refl node) (SameEntries.refl _) h.persisted⟩
  · have hinsert := h.insert hvalid hnew hfresh
    rw [hadd]
    split_ifs with htrust
    · have hstarted : (insertBlockIndex node pindexNew).pindexGenesisBlock ≠ none :=
        hinsert.best.started
      simp only [Arrival.connects, hnew, hfresh, not_le.mpr htrust, hstarted, Option.isSome_none,
        Bool.false_eq_true, or_self, if_false, false_and] at hconnects
      refine setBestChain_recorded hinsert hentry hpprev hhash.symm (fun hext => ?_) fun hne => ?_
      · rw [if_pos hext] at hconnects
        exact hconnects
      · rw [if_neg hne] at hconnects
        exact hconnects
    · exact ⟨tip, hinsert⟩

/-! ### Runs -/

/-- The call of `AddToBlockIndex` for the genesis block, on a node that knows no block. -/
structure Arrival.IsGenesis (env : Env) (node : Node) (a : Arrival) : Prop where
  index : ∀ h, node.mapBlockIndex h = none
  started : node.pindexGenesisBlock = none
  trust : node.nBestChainTrust = 0
  batch : node.txdb.activeBatch = none
  records : ∀ h, node.txdb.pdb (.blockindex h) = none
  hash : env.getBlockHash a.block = env.hashGenesisBlock
  first : a.block.hashPrevBlock = 0
  work : 0 < env.getBlockTrust a.block.nBits
  modifier : (env.computeNextStakeModifier node.mapBlockIndex none).isSome = true

theorem Arrival.IsGenesis.newBlockIndex (h : a.IsGenesis env node) : ∃ pindexNew,
    newBlockIndex env node a.block a.nFile a.nBlockPos a.hashProof = .ok pindexNew ∧
      pindexNew.hashBlock = env.hashGenesisBlock ∧ pindexNew.pprev = none ∧
      pindexNew.pnext = none ∧ pindexNew.nHeight = 0 ∧
      pindexNew.nChainTrust = env.getBlockTrust a.block.nBits := by
  obtain ⟨⟨nStakeModifier, fGenerated⟩, hmodifier⟩ := Option.isSome_iff_exists.mp h.modifier
  simp only [Sphinx.newBlockIndex, h.index, Option.map_none, hmodifier]
  refine ⟨_, rfl, h.hash, rfl, rfl, rfl, ?_⟩
  exact Nat.zero_add _

theorem Arrival.IsGenesis.add_eq (h : a.IsGenesis env node)
    (hnew : Sphinx.newBlockIndex env node a.block a.nFile a.nBlockPos a.hashProof = .ok pindexNew)
    (htrust : pindexNew.nChainTrust = env.getBlockTrust a.block.nBits) :
    a.add env node = newBestBlock { insertBlockIndex node pindexNew with
      txdb := ((insertBlockIndex node pindexNew).txdb.txnBegin.writeHashBestChain
        env.hashGenesisBlock).txnCommit
      pindexGenesisBlock := some pindexNew.hashBlock } env.hashGenesisBlock pindexNew := by
  have hlt : (insertBlockIndex node pindexNew).nBestChainTrust < pindexNew.nChainTrust := by
    show node.nBestChainTrust < _
    rw [h.trust, htrust]
    exact h.work
  have hstarted : (insertBlockIndex node pindexNew).pindexGenesisBlock = none := h.started
  simp only [Arrival.add, addToBlockIndex, h.index, hnew, Option.isSome_none, Bool.false_eq_true,
    if_false, hlt, if_true, setBestChain, hstarted, h.hash, and_self]
  rfl

theorem Arrival.IsGenesis.persisted (h : a.IsGenesis env node) :
    Persisted node.mapBlockIndex node.txdb := by
  intro k
  rw [h.index, CTxDB.view, h.batch]
  exact h.records k

theorem recorded_genesis (h : a.IsGenesis env node) :
    Recorded env env.hashGenesisBlock (a.add env node) env.hashGenesisBlock := by
  obtain ⟨pindexNew, hnew, hhash, hpprev, hpnext, hheight, htrust⟩ := h.newBlockIndex
  have hadd := h.add_eq hnew htrust
  have hmap : (a.add env node).mapBlockIndex
      = Function.update (fun _ => none) env.hashGenesisBlock (some pindexNew) := by
    rw [hadd]
    show Function.update node.mapBlockIndex pindexNew.hashBlock (some pindexNew) = _
    rw [hhash, funext h.index]
  have hstart : OnlyGenesis env.hashGenesisBlock (a.add env node) := by
    refine ⟨⟨pindexNew, hhash, hpprev, hpnext, hheight, hmap⟩, ?_, ?_, ?_, ?_, ?_, ?_⟩
    · rw [hadd, ← hhash]
      rfl
    · rw [hadd, ← hhash]
      rfl
    · rw [hadd]
      rfl
    · rw [hadd]
      show (pindexNew.nHeight : Int) = 0
      rw [hheight]
      rfl
    · rw [hadd]
      rfl
    · rw [hadd]
      exact readHashBestChain_commit _ _
  refine ⟨bestInv_onlyGenesis hstart, fun e he => ?_, ?_, fun k e he => ?_, ?_⟩
  · rw [(eq_of_single hmap he).2, hadd]
    rfl
  · rw [hadd]
    refine (h.persisted.insertBlockIndex h.batch pindexNew).of_view fun k => ?_
    exact view_writeHashBestChain_commit _ _ _
  · rw [(eq_of_single hmap he).2, hadd]
    refine (newBlockIndex_entryOk (fun _ => h.first) hnew).update ?_ pindexNew
    rw [hpprev]
    rintro ⟨⟩
  · refine (Set.finite_singleton env.hashGenesisBlock).subset fun k hk => ?_
    obtain ⟨e, he⟩ := exists_of_mem_indexed hk
    exact (eq_of_single hmap he).1

/-- **Memory and records are the same** after every run in which each `ConnectBlock` succeeds. -/
theorem indexRun_recorded {start : Node} (hgenesis : a.IsGenesis env start)
    (hrun : ReflTransGen (IndexStep env fun node a => a.connects env node = true) (a.add env start) node) :
    ∃ tip, Recorded env env.hashGenesisBlock node tip := by
  induction hrun with
  | refl => exact ⟨_, recorded_genesis hgenesis⟩
  | tail _ hstep ih =>
    obtain ⟨tip, hrecorded⟩ := ih
    obtain ⟨a, hvalid, hconnects, rfl⟩ := hstep
    exact addStep_recorded hrecorded hvalid hconnects

end Sphinx
