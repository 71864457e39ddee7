import Sphinx.Stake
import Sphinx.Equiv.TxIndex

/-!
# Stake validity and the best chain

`CheckProofOfStake` looks the kernel up in the transaction index, that is in the active chain, and
searches for its depth among the ancestors of the new block.  Its result depends on the branch of the
block and on which block of the active chain, if any, confirms the kernel: `SameBlocks` relates two
nodes that hold the same blocks, at whatever places on disk, and `checkProofOfStake_congr` says that
they give the same result when the same block confirms the kernel in both.

* `isSome_isConfirmedInNPrevBlocks_iff`: what the loop over the ancestors finds;
* `stakeRun_spec`: the two nodes, and what a success says about the kernel.
-/

namespace Sphinx

open Relation ParentTree
open CTransaction (NoCollision)

variable {env : Env} {T : Set CTransaction} {genesis : Uint256}
variable {m : BlockMap} {h : Uint256} {node : Node} {block : CBlock} {tx : CTransaction}
  {b : ChainBlock} {txindex : CTxIndex} {pindexPrev : CBlockIndex} {nFile : Nat}

/-! ### Where blocks are stored -/

/-- Every block of the index can be read back from its place on disk. -/
def Filed (env : Env) (m : BlockMap) : Prop :=
  ∀ (h : Uint256) (e : CBlockIndex), m h = some e → ∃ block,
    env.files.readBlock e.nFile e.nBlockPos = some block ∧ env.getBlockHash block = h

theorem Filed.congr {m' : BlockMap} (hf : Filed env m) (hsame : SameTree m' m) : Filed env m' := by
  intro h e' he'
  obtain ⟨e, he, hcore⟩ := hsame.exists_right he'
  rw [hcore.nFile, hcore.nBlockPos]
  exact hf h e he

theorem Filed.inj (hf : Filed env m) {h' : Uint256} {e e' : CBlockIndex} (he : m h = some e)
    (he' : m h' = some e') (hfile : e.nFile = e'.nFile) (hpos : e.nBlockPos = e'.nBlockPos) : h = h' := by
  obtain ⟨block, hread, hhash⟩ := hf h e he
  obtain ⟨block', hread', hhash'⟩ := hf h' e' he'
  rw [hfile, hpos, hread'] at hread
  rw [← hhash, ← hhash', Option.some.inj hread]

theorem Filed.step {s s' : ChainState} (hcore : ChainCore env T genesis s)
    (hf : Filed env s.node.mapBlockIndex) (hstep : ChainStep env T genesis s s') :
    Filed env s'.node.mapBlockIndex := by
  cases hstep with
  | @accept _ _ block nFile nBlockPos _ pindex _ haccept _ hwritten hentry _ _ =>
    obtain ⟨-, prev, hprev, -⟩ := acceptBlockChecks_ok haccept
    obtain ⟨hhash, -, -, hfile, hpos, -, -⟩ := newBlockIndex_ok hprev hentry
    intro h e he
    have he' : Function.update s.node.mapBlockIndex pindex.hashBlock (some pindex) h = some e := he
    by_cases hk : h = pindex.hashBlock
    · subst hk
      rw [Function.update_self, Option.some.injEq] at he'
      rw [← he', hfile, hpos]
      exact ⟨block, hwritten, hhash.symm⟩
    · rw [Function.update_of_ne hk] at he'
      exact hf h e he'
  | @connect _ ctx block pindex node' hentry _ _ hconn =>
    have hstaged := staged_connectBlock env ctx s.node block hentry
    rw [hconn] at hstaged
    exact hf.congr hstaged.sameTree
  | @disconnect node node' chain b block pindex _ _ hdis =>
    have hstaged := staged_disconnectBlock env node block pindex
    rw [hdis] at hstaged
    exact hf.congr hstaged.sameTree
  | other _ hmap => exact hf.congr (hmap.mono CBlockIndex.sameButNext.sameCore)

/-- The active chain and the block files of a node that has run from the genesis block. -/
structure ReachedChain (env : Env) (T : Set CTransaction) (genesis : Uint256) (s : ChainState) :
    Prop where
  core : ChainCore env T genesis s
  filed : Filed env s.node.mapBlockIndex

theorem reachedChain {s : ChainState} (hstart : AtGenesis genesis node)
    (hfiled : Filed env node.mapBlockIndex) (hcoll : NoCollision env.getHash T)
    (hrun : ReflTransGen (ChainStep env T genesis) ⟨node, []⟩ s) : ReachedChain env T genesis s := by
  induction hrun with
  | refl => exact ⟨(chainInv_genesis hstart).core, hfiled⟩
  | @tail s s' hrun hstep ih =>
    have hinv := chainStep_inv (chainRun_inv hstart hcoll hrun) hcoll hstep
    exact ⟨hinv.core, Filed.step ih.core ih.filed hstep⟩

/-! ### Confirming blocks -/

/-- The block `X` of the chain has a transaction with hash `h`. -/
def ConfirmedBy (env : Env) (chain : List ChainBlock) (h X : Uint256) : Prop :=
  ∃ b ∈ chain, b.pindex.hashBlock = X ∧ ∃ tx ∈ b.block.vtx, env.getHash tx = h

theorem mem_placeTxs_pos {pindex : CBlockIndex} {x : Placed} :
    ∀ {xs done : List CTransaction}, x ∈ placeTxs pindex block done xs →
      ∃ nTxPos, x.pos = .pos pindex.nFile pindex.nBlockPos nTxPos := by
  intro xs
  induction xs with
  | nil =>
    intro done hx
    cases hx
  | cons tx xs ih =>
    intro done hx
    rcases List.mem_cons.mp hx with rfl | hx
    · exact ⟨_, rfl⟩
    · exact ih hx

theorem exists_placed (pindex : CBlockIndex) (block : CBlock) {xs : List CTransaction}
    (done : List CTransaction) (htx : tx ∈ xs) :
    ∃ x ∈ placeTxs pindex block done xs, x.tx = tx := by
  have hmem : tx ∈ (placeTxs pindex block done xs).map Placed.tx := by
    rw [map_tx_placeTxs]
    exact htx
  obtain ⟨x, hx, heq⟩ := List.mem_map.mp hmem
  exact ⟨x, hx, heq⟩

section

variable {s : ChainState} (hs : ReachedChain env T genesis s) (hcoll : NoCollision env.getHash T)

include hs hcoll

/-- What the transaction index has for a transaction of a block of the active chain. -/
theorem ReachedChain.readTxIndex (hb : b ∈ s.chain) (htx : tx ∈ b.block.vtx) :
    ∃ txindex nTxPos, s.node.txdb.readTxIndex (env.getHash tx) = some txindex ∧
      txindex.pos = .pos b.pindex.nFile b.pindex.nBlockPos nTxPos ∧
      env.readTxFromDisk txindex.pos = some tx := by
  obtain ⟨x, hx, rfl⟩ := exists_placed b.pindex b.block [] htx
  have hmem : x ∈ chainTxs s.chain := List.mem_flatMap.mpr ⟨b, hb, hx⟩
  have hspec := hs.core.ledger.spec hcoll hs.core.mem
  obtain ⟨txindex, hindex, hpos, -⟩ := hspec.entry x hmem
  obtain ⟨nTxPos, hplace⟩ := mem_placeTxs_pos hx
  obtain ⟨_, hfollow⟩ := hs.core.ledger.forall_canFollow hmem
  refine ⟨txindex, nTxPos, ?_, hpos.trans hplace, ?_⟩
  · rw [← hs.core.index] at hindex
    exact hindex
  · rw [hpos]
    exact hfollow.onDisk

theorem ReachedChain.exists_confirmedBy (hread : s.node.txdb.readTxIndex h = some txindex) :
    ∃ X, ConfirmedBy env s.chain h X := by
  have hspec := hs.core.ledger.spec hcoll hs.core.mem
  have hindex : ledgerIndex env (chainTxs s.chain) h = some txindex := by
    rw [← hs.core.index]
    exact hread
  by_contra hnone
  have hempty := (hspec.none_iff h).mpr (by
    intro x hx heq
    obtain ⟨b, hb, hxb⟩ := List.mem_flatMap.mp hx
    exact hnone ⟨_, b, hb, rfl, x.tx, (mem_placeTxs hxb).1, heq.symm⟩)
  rw [hempty] at hindex
  cases hindex

theorem ReachedChain.readTxIndex_none_iff :
    s.node.txdb.readTxIndex h = none ↔ ∀ X, ¬ ConfirmedBy env s.chain h X := by
  constructor
  · rintro hindex X ⟨b, hb, -, tx, htx, rfl⟩
    obtain ⟨txindex, _, hsome, -, -⟩ := hs.readTxIndex hcoll hb htx
    rw [hindex] at hsome
    cases hsome
  · intro hnone
    by_contra hne
    obtain ⟨txindex, hindex⟩ := Option.ne_none_iff_exists'.mp hne
    obtain ⟨X, hX⟩ := hs.exists_confirmedBy hcoll hindex
    exact hnone X hX

end

/-! ### Ancestors -/

/-- The transaction is in the block of the index entry. -/
def CDiskTxPos.inBlock (pos : CDiskTxPos) (pindex : CBlockIndex) : Prop :=
  ∃ nTxPos, pos = .pos pindex.nFile pindex.nBlockPos nTxPos

theorem isSome_find_takeWhile_cons {α : Type} (p q : α → Bool) (x : α) (l : List α) :
    (((x :: l).takeWhile p).find? q).isSome = true ↔
      p x = true ∧ (q x = true ∨ ((l.takeWhile p).find? q).isSome = true) := by
  by_cases hp : p x = true
  · rw [List.takeWhile_cons_of_pos hp]
    by_cases hq : q x = true
    · rw [List.find?_cons_of_pos hq]
      exact iff_of_true rfl ⟨hp, .inl hq⟩
    · rw [List.find?_cons_of_neg hq]
      simp [hp, hq]
  · rw [List.takeWhile_cons_of_neg hp]
    exact iff_of_false (by simp) fun h => hp h.1

/-- A search among the ancestors down to a depth. -/
theorem isSome_find_pprevChain (ht : IndexTree m genesis) (nHeightFrom nMaxDepth : Int)
    (q : CBlockIndex → Bool) :
    ∀ (n : Nat) {h : Uint256} {e : CBlockIndex}, m h = some e → e.nHeight = n →
      ((((pprevChain m (n + 1) (some h)).takeWhile fun pindex =>
        nHeightFrom - pindex.nHeight < nMaxDepth).find? q).isSome ↔
      ∃ a entry, Ancestor (parentOf m) h a ∧ m a = some entry ∧
        nHeightFrom - entry.nHeight < nMaxDepth ∧ q entry = true) := by
  intro n
  induction n with
  | zero =>
    -- the genesis block is its only ancestor
    intro h e he hn
    have hself : ∀ a, Ancestor (parentOf m) h a → h = a := by
      intro a ha
      apply ht.graded.eq_of_ancestor (mem_indexed he) ha
      rw [heightOf_eq he, hn]
      exact Nat.zero_le _
    have hchain : pprevChain m 1 (some h) = [e] := by
      simp only [pprevChain, he]
    rw [hchain, isSome_find_takeWhile_cons, decide_eq_true_iff]
    constructor
    · rintro ⟨hp, hq | hnone⟩
      · exact ⟨h, e, ancestor_refl h, he, hp, hq⟩
      · cases hnone
    · rintro ⟨a, entry, ha, hentry, hp, hq⟩
      obtain rfl := hself a ha
      rw [he, Option.some.injEq] at hentry
      subst hentry
      exact ⟨hp, .inl hq⟩
  | succ n ih =>
    intro h e he hn
    have hhash := ht.hash he
    obtain ⟨prev, -, hprev, hparent, hheight⟩ := ht.exists_pprev (hhash ▸ he) (by omega)
    rw [hhash] at hparent
    have hpprev : e.pprev = some prev.hashBlock := by
      rw [← parentOf_eq he]
      exact hparent
    have hchain : pprevChain m (n + 1 + 1) (some h) =
        e :: pprevChain m (n + 1) (some prev.hashBlock) := by
      conv_lhs => unfold pprevChain
      simp only [he, hpprev]
    rw [hchain, isSome_find_takeWhile_cons, decide_eq_true_iff, ih hprev (by omega)]
    constructor
    · rintro ⟨hp, hq | ⟨a, entry, ha, hrest⟩⟩
      · exact ⟨h, e, ancestor_refl h, he, hp, hq⟩
      · exact ⟨a, entry, .of_parent hparent ha, hrest⟩
    · rintro ⟨a, entry, ha, hentry, hdepth, hq⟩
      -- an ancestor is even deeper
      have hle := ht.graded.height_le (mem_indexed he) ha
      rw [heightOf_eq he, heightOf_eq hentry] at hle
      refine ⟨by omega, ?_⟩
      rcases (ancestor_iff hparent).mp ha with rfl | ha
      · rw [he, Option.some.injEq] at hentry
        exact .inl (hentry ▸ hq)
      · exact .inr ⟨a, entry, ha, hentry, hdepth, hq⟩

/-- `IsConfirmedInNPrevBlocks` finds the block of the transaction among the last ancestors. -/
theorem isSome_isConfirmedInNPrevBlocks_iff (ht : IndexTree m genesis) {start : CBlockIndex}
    (hfrom : m start.hashBlock = some start) (nMaxDepth : Nat) :
    (isConfirmedInNPrevBlocks m txindex (some start.hashBlock) nMaxDepth).isSome ↔
      ∃ a entry, Ancestor (parentOf m) start.hashBlock a ∧ m a = some entry ∧
        (start.nHeight : Int) - entry.nHeight < nMaxDepth ∧ txindex.pos.inBlock entry := by
  unfold isConfirmedInNPrevBlocks
  simp only [Option.bind_some, hfrom, Option.isSome_map]
  refine (isSome_find_pprevChain ht start.nHeight nMaxDepth _ start.nHeight hfrom rfl).trans ?_
  refine exists_congr fun a => exists_congr fun entry => and_congr_right fun _ =>
    and_congr_right fun _ => and_congr_right fun _ => ?_
  unfold CDiskTxPos.inBlock
  cases txindex.pos with
  | null => simp
  | pos nFile nBlockPos nTxPos =>
    simp only [Bool.and_eq_true, decide_eq_true_eq, CDiskTxPos.pos.injEq]
    constructor
    · rintro ⟨hpos, hfile⟩
      exact ⟨nTxPos, hfile.symm, hpos.symm, rfl⟩
    · rintro ⟨_, hfile, hpos, -⟩
      exact ⟨hpos.symm, hfile.symm⟩

/-! ### Two nodes with the same blocks -/

/-- The node with other block files. -/
def Env.withFiles (env : Env) (files : BlockFiles) : Env := { env with files := files }

/-- Two entries of one block, which may be at different places of different files. -/
structure SameBlock (env env' : Env) (e' e : CBlockIndex) : Prop where
  pprev : e'.pprev = e.pprev
  nHeight : e'.nHeight = e.nHeight
  bnStakeModifierV2 : e'.bnStakeModifierV2 = e.bnStakeModifierV2
  block : env'.files.readBlock e'.nFile e'.nBlockPos = env.files.readBlock e.nFile e.nBlockPos

/-- The same blocks are held, with the same ancestors. -/
def SameBlocks (env env' : Env) (m' m : BlockMap) : Prop := Entrywise (SameBlock env env') m' m

theorem SameBlocks.parentOf_eq {env' : Env} {m' : BlockMap} (h : SameBlocks env env' m' m) :
    parentOf m' = parentOf m := by
  funext k
  cases hk : m k with
  | none => rw [parentOf, parentOf, hk, (h.none_iff k).mpr hk]
  | some e =>
    obtain ⟨e', he', hsame⟩ := h.exists_left hk
    rw [Sphinx.parentOf_eq hk, Sphinx.parentOf_eq he', hsame.pprev]

section

variable {s : ChainState} (hs : ReachedChain env T genesis s)

include hs

theorem ReachedChain.entry (hb : b ∈ s.chain) :
    ∃ e, s.node.mapBlockIndex b.pindex.hashBlock = some e ∧
      SameCore e b.pindex ∧ env.files.readBlock b.pindex.nFile b.pindex.nBlockPos = some b.block := by
  obtain ⟨pre, post, hchain⟩ := List.append_of_mem hb
  obtain ⟨e, he, hcore, -, -, hstored⟩ := hs.core.blocks pre b post hchain
  exact ⟨e, he, hcore, hstored.read⟩

/-- A place in the block of an entry belongs to that entry only. -/
theorem ReachedChain.inBlock_iff (hb : b ∈ s.chain)
    {nTxPos : Nat} {a : Uint256} {entry : CBlockIndex} (hentry : s.node.mapBlockIndex a = some entry) :
    (CDiskTxPos.pos b.pindex.nFile b.pindex.nBlockPos nTxPos).inBlock entry ↔
      a = b.pindex.hashBlock := by
  obtain ⟨e, he, hcore, -⟩ := hs.entry hb
  constructor
  · rintro ⟨_, hpos⟩
    obtain ⟨hfile, hblock, -⟩ := CDiskTxPos.pos.inj hpos
    exact hs.filed.inj hentry he (hfile.symm.trans hcore.nFile.symm)
      (hblock.symm.trans hcore.nBlockPos.symm)
  · intro heq
    subst heq
    rw [he, Option.some.injEq] at hentry
    subst hentry
    refine ⟨nTxPos, ?_⟩
    rw [hcore.nFile, hcore.nBlockPos]

/-- Two transactions of a block of the active chain have different hashes. -/
theorem ReachedChain.tx_inj
    (hcoll : NoCollision env.getHash T) (hb : b ∈ s.chain) {tx' : CTransaction}
    (htx : tx ∈ b.block.vtx) (htx' : tx' ∈ b.block.vtx) (heq : env.getHash tx = env.getHash tx') :
    tx = tx' := by
  obtain ⟨txindex, _, hindex, -, hread⟩ := hs.readTxIndex hcoll hb htx
  obtain ⟨txindex', _, hindex', -, hread'⟩ := hs.readTxIndex hcoll hb htx'
  rw [heq, hindex', Option.some.injEq] at hindex
  rw [hindex, hread, Option.some.injEq] at hread'
  exact hread'

/-- The depth of a transaction of the active chain, seen from a block of the index. -/
theorem ReachedChain.isConfirmed_iff
    (hb : b ∈ s.chain) {nTxPos : Nat}
    (hpos : txindex.pos = .pos b.pindex.nFile b.pindex.nBlockPos nTxPos)
    (hprev : s.node.mapBlockIndex pindexPrev.hashBlock = some pindexPrev) (nMaxDepth : Nat) :
    (isConfirmedInNPrevBlocks s.node.mapBlockIndex txindex (some pindexPrev.hashBlock)
      nMaxDepth).isSome ↔
      Ancestor (parentOf s.node.mapBlockIndex) pindexPrev.hashBlock b.pindex.hashBlock ∧
        (pindexPrev.nHeight : Int) - b.pindex.nHeight < nMaxDepth := by
  obtain ⟨e, he, hcore, -⟩ := hs.entry hb
  rw [isSome_isConfirmedInNPrevBlocks_iff hs.core.tree hprev, hpos]
  constructor
  · rintro ⟨a, entry, ha, hentry, hdepth, hin⟩
    obtain rfl := (hs.inBlock_iff hb hentry).mp hin
    rw [he, Option.some.injEq] at hentry
    rw [← hentry, hcore.nHeight] at hdepth
    exact ⟨ha, hdepth⟩
  · rintro ⟨ha, hdepth⟩
    rw [← hcore.nHeight] at hdepth
    exact ⟨_, e, ha, he, hdepth, (hs.inBlock_iff hb he).mpr rfl⟩

end

/-! ### `CheckProofOfStake` -/

/-- The kernel of a coinstake. -/
def kernelOf (tx : CTransaction) : COutPoint := (tx.vin.headD ⟨COutPoint.null, [], 0⟩).prevout

theorem CTxDB.eq_of_batch {txdb : CTxDB} (h : txdb.activeBatch = none) :
    ({ txdb with activeBatch := none } : CTxDB) = txdb := by
  rw [← h]

/-- What is read of a kernel that a block of the active chain confirms. -/
theorem ReachedChain.readTxPrev {s : ChainState} (hs : ReachedChain env T genesis s)
    (hcoll : NoCollision env.getHash T) (hb : b ∈ s.chain) (htx : tx ∈ b.block.vtx)
    {prevout : COutPoint} (hhash : env.getHash tx = prevout.hash) :
    ∃ txindex nTxPos, txindex.pos = .pos b.pindex.nFile b.pindex.nBlockPos nTxPos ∧
      Sphinx.readTxPrev env s.node.txdb prevout =
        (if tx.vout.length ≤ prevout.n then none else some (tx, txindex)) ∧
      readHeaderAt env txindex.pos = some b.block := by
  obtain ⟨txindex, nTxPos, hindex, hpos, hread⟩ := hs.readTxIndex hcoll hb htx
  obtain ⟨_, -, -, hblock⟩ := hs.entry hb
  refine ⟨txindex, nTxPos, hpos, ?_, ?_⟩
  · unfold Sphinx.readTxPrev
    rw [← hhash, hindex, Option.bind_eq_bind, Option.bind_some, hread, Option.bind_eq_bind,
      Option.bind_some]
    rfl
  · rw [hpos]
    exact hblock

theorem readTxPrev_none {txdb : CTxDB} {prevout : COutPoint}
    (h : txdb.readTxIndex prevout.hash = none) : readTxPrev env txdb prevout = none := by
  unfold readTxPrev
  rw [h]
  rfl

variable {files' : BlockFiles} {s s' : ChainState}

/-- A block that is in both active chains. -/
theorem SameBlocks.chainBlock_eq (hs : ReachedChain env T genesis s)
    (hs' : ReachedChain (env.withFiles files') T genesis s')
    (hsame : SameBlocks env (env.withFiles files') s'.node.mapBlockIndex s.node.mapBlockIndex)
    {b' : ChainBlock} (hb : b ∈ s.chain) (hb' : b' ∈ s'.chain)
    (heq : b'.pindex.hashBlock = b.pindex.hashBlock) :
    b'.block = b.block ∧ b'.pindex.nHeight = b.pindex.nHeight := by
  obtain ⟨e, he, hcore, hread⟩ := hs.entry hb
  obtain ⟨e', he', hcore', hread'⟩ := hs'.entry hb'
  obtain ⟨e'', he'', hblockSame⟩ := hsame.exists_left he
  rw [← heq, he', Option.some.injEq] at he''
  subst he''
  constructor
  · have hfiles := hblockSame.block
    rw [hcore.nFile, hcore.nBlockPos, hcore'.nFile, hcore'.nBlockPos, hread, hread'] at hfiles
    exact Option.some.inj hfiles
  · rw [← hcore.nHeight, ← hcore'.nHeight, hblockSame.nHeight]

/-- **Two nodes agree on a coinstake** when the same block of the active chain, or none, confirms its
kernel in both. -/
theorem checkProofOfStake_congr (hashKernel : Uint256 → Nat → COutPoint → Nat → Uint256)
    (hs : ReachedChain env T genesis s) (hs' : ReachedChain (env.withFiles files') T genesis s')
    (hcoll : NoCollision env.getHash T) (hbatch : s.node.txdb.activeBatch = none)
    (hbatch' : s'.node.txdb.activeBatch = none)
    (hsame : SameBlocks env (env.withFiles files') s'.node.mapBlockIndex s.node.mapBlockIndex)
    {pindexPrev' : CBlockIndex} (hprev : s.node.mapBlockIndex h = some pindexPrev)
    (hprev' : s'.node.mapBlockIndex h = some pindexPrev') (tx : CTransaction) (nBits : Nat)
    (hconf : ∀ X, ConfirmedBy env s.chain (kernelOf tx).hash X ↔ ConfirmedBy env s'.chain (kernelOf tx).hash X) :
    checkProofOfStake env hashKernel s.node pindexPrev tx nBits =
      checkProofOfStake (env.withFiles files') hashKernel s'.node pindexPrev' tx nBits := by
  have hcoll' : NoCollision (env.withFiles files').getHash T := hcoll
  have hkernel : (tx.vin.headD ⟨COutPoint.null, [], 0⟩).prevout = kernelOf tx := rfl
  obtain ⟨e', he', hprevSame⟩ := hsame.exists_left hprev
  rw [hprev', Option.some.injEq] at he'
  subst he'
  unfold checkProofOfStake
  simp only [CTxDB.eq_of_batch hbatch, CTxDB.eq_of_batch hbatch', hkernel]
  cases hindex : s.node.txdb.readTxIndex (kernelOf tx).hash with
  | none =>
    -- the kernel is in neither chain
    have hindex' : s'.node.txdb.readTxIndex (kernelOf tx).hash = none := by
      refine (hs'.readTxIndex_none_iff hcoll').mpr fun X hX => ?_
      exact (hs.readTxIndex_none_iff hcoll).mp hindex X ((hconf X).mpr hX)
    rw [readTxPrev_none hindex, readTxPrev_none hindex']
  | some txindex =>
    obtain ⟨X, hX⟩ := hs.exists_confirmedBy hcoll hindex
    obtain ⟨b, hb, hbX, tx0, htx0, hhash⟩ := hX
    obtain ⟨b', hb', hbX', tx0', htx0', hhash'⟩ := (hconf X).mp ⟨b, hb, hbX, tx0, htx0, hhash⟩
    -- both chains have the same block
    obtain ⟨hblock, hheight⟩ := SameBlocks.chainBlock_eq hs hs' hsame hb hb' (hbX'.trans hbX.symm)
    rw [hblock] at htx0'
    obtain rfl := hs.tx_inj hcoll hb htx0 htx0' (hhash.trans hhash'.symm)
    rw [← hblock] at htx0'
    obtain ⟨txindex, nTxPos, hpos, hprevRead, hheader⟩ := hs.readTxPrev hcoll hb htx0 hhash
    obtain ⟨txindex', nTxPos', hpos', hprevRead', hheader'⟩ :=
      hs'.readTxPrev hcoll' hb' htx0' hhash'
    have hconfirmed : (isConfirmedInNPrevBlocks s.node.mapBlockIndex txindex
        (some pindexPrev.hashBlock) (nStakeMinConfirmations - 1)).isSome =
        (isConfirmedInNPrevBlocks s'.node.mapBlockIndex txindex'
          (some pindexPrev'.hashBlock) (nStakeMinConfirmations - 1)).isSome := by
      have hhashPrev := hs.core.tree.hash hprev
      have hhashPrev' := hs'.core.tree.hash hprev'
      rw [Bool.eq_iff_iff, hs.isConfirmed_iff hb hpos (by rw [hhashPrev]; exact hprev),
        hs'.isConfirmed_iff hb' hpos' (by rw [hhashPrev']; exact hprev'), hsame.parentOf_eq, hheight,
        hhashPrev, hhashPrev', hbX, hbX', hprevSame.nHeight]
    have hproof : checkStakeKernelHash hashKernel pindexPrev' nBits b'.block.nTime tx0 (kernelOf tx)
        tx.nTime = checkStakeKernelHash hashKernel pindexPrev nBits b.block.nTime tx0 (kernelOf tx)
        tx.nTime := by
      rw [hblock]
      unfold checkStakeKernelHash
      rw [hprevSame.bnStakeModifierV2]
    rw [hprevRead, hprevRead']
    by_cases hn : tx0.vout.length ≤ (kernelOf tx).n
    · rw [if_pos hn, if_pos hn]
    · rw [if_neg hn, if_neg hn]
      simp only [hheader, hheader', hconfirmed, hproof]
      rfl

/-- A coinstake that passes has a kernel that the active chain confirms. -/
theorem checkProofOfStake_ok {hashKernel : Uint256 → Nat → COutPoint → Nat → Uint256}
    (hs : ReachedChain env T genesis s) (hcoll : NoCollision env.getHash T)
    (hbatch : s.node.txdb.activeBatch = none) (hprev : s.node.mapBlockIndex h = some pindexPrev)
    {nBits : Nat} {proof : Uint256 × Uint256}
    (hok : checkProofOfStake env hashKernel s.node pindexPrev tx nBits = .ok proof) :
    ∃ b ∈ s.chain, (∃ tx0 ∈ b.block.vtx, env.getHash tx0 = (kernelOf tx).hash) ∧
      ¬ (Ancestor (parentOf s.node.mapBlockIndex) h b.pindex.hashBlock ∧
        (pindexPrev.nHeight : Int) - b.pindex.nHeight < 179) := by
  have hkernel : (tx.vin.headD ⟨COutPoint.null, [], 0⟩).prevout = kernelOf tx := rfl
  unfold checkProofOfStake at hok
  simp only [CTxDB.eq_of_batch hbatch, hkernel] at hok
  obtain ⟨-, -, hok⟩ := exceptBind_ok.mp hok
  cases hindex : s.node.txdb.readTxIndex (kernelOf tx).hash with
  | none =>
    rw [readTxPrev_none hindex] at hok
    cases hok
  | some txindex =>
    -- the index entry leads to the block of the active chain that holds the transaction
    obtain ⟨X, b, hb, rfl, tx0, htx0, hhash⟩ := hs.exists_confirmedBy hcoll hindex
    obtain ⟨txindex, nTxPos, hpos, hprevRead, hheader⟩ := hs.readTxPrev hcoll hb htx0 hhash
    refine ⟨b, hb, ⟨tx0, htx0, hhash⟩, ?_⟩
    rw [hprevRead] at hok
    split at hok
    · cases hok
    · next heq =>
      split at heq
      · cases heq
      · obtain ⟨rfl, rfl⟩ := Prod.mk.inj (Option.some.inj heq)
        obtain ⟨-, -, hok⟩ := exceptBind_ok.mp hok
        rw [hheader] at hok
        obtain ⟨u, hdepth, -⟩ := exceptBind_ok.mp hok
        rw [rejectIf_eq_ok] at hdepth
        intro hnear
        have hhashPrev := hs.core.tree.hash hprev
        have hsome := (hs.isConfirmed_iff hb hpos (by rw [hhashPrev]; exact hprev)
          (nStakeMinConfirmations - 1)).mpr (by rw [hhashPrev]; exact hnear)
        rw [hdepth] at hsome
        cases hsome

/-- **Stake validity and the best chain.**  Take two runs that end with the same blocks, possibly at
different places on disk, and with any two active chains.  Both nodes give the same result for a
coinstake on top of a block `h` if the same block, or none, of their active chains confirms its kernel.
A coinstake that passes has a kernel confirmed by a block of the active chain; if that block is an
ancestor of `h`, then it is at least 179 blocks below it, and it is an ancestor if `h` is the tip. -/
theorem stakeRun_spec (hashKernel : Uint256 → Nat → COutPoint → Nat → Uint256) {node node' : Node}
    (hcoll : NoCollision env.getHash T)
    (hstart : AtGenesis genesis node) (hfiled : Filed env node.mapBlockIndex)
    (hrun : ReflTransGen (ChainStep env T genesis) ⟨node, []⟩ s)
    (hbatch : s.node.txdb.activeBatch = none)
    (hstart' : AtGenesis genesis node')
    (hfiled' : Filed (env.withFiles files') node'.mapBlockIndex)
    (hrun' : ReflTransGen (ChainStep (env.withFiles files') T genesis) ⟨node', []⟩ s')
    (hbatch' : s'.node.txdb.activeBatch = none)
    (hsame : SameBlocks env (env.withFiles files') s'.node.mapBlockIndex s.node.mapBlockIndex)
    {h : Uint256} {pindexPrev pindexPrev' : CBlockIndex}
    (hprev : s.node.mapBlockIndex h = some pindexPrev)
    (hprev' : s'.node.mapBlockIndex h = some pindexPrev') (tx : CTransaction) (nBits : Nat) :
    ((∀ X, ConfirmedBy env s.chain (kernelOf tx).hash X ↔
        ConfirmedBy env s'.chain (kernelOf tx).hash X) →
      checkProofOfStake env hashKernel s.node pindexPrev tx nBits =
        checkProofOfStake (env.withFiles files') hashKernel s'.node pindexPrev' tx nBits) ∧
    ((checkProofOfStake env hashKernel s.node pindexPrev tx nBits).isOk = true →
      ∃ X entry, ConfirmedBy env s.chain (kernelOf tx).hash X ∧
        s.node.mapBlockIndex X = some entry ∧
        (Ancestor (parentOf s.node.mapBlockIndex) h X → entry.nHeight + 179 ≤ pindexPrev.nHeight) ∧
        (h = tipOf genesis s.chain → Ancestor (parentOf s.node.mapBlockIndex) h X)) := by
  have hs := reachedChain hstart hfiled hcoll hrun
  have hs' : ReachedChain (env.withFiles files') T genesis s' :=
    reachedChain hstart' hfiled' hcoll hrun'
  refine ⟨checkProofOfStake_congr hashKernel hs hs' hcoll hbatch hbatch' hsame hprev hprev' tx nBits,
    ?_⟩
  intro hok
  obtain ⟨proof, hok⟩ := exists_of_isOk hok
  obtain ⟨b, hb, hconf, hdeep⟩ := checkProofOfStake_ok hs hcoll hbatch hprev hok
  obtain ⟨entry, hentry, hcore, -⟩ := hs.entry hb
  refine ⟨b.pindex.hashBlock, entry, ⟨b, hb, rfl, hconf⟩, hentry, ?_, ?_⟩
  · -- the search for a recent confirmation has found none
    intro hanc
    have hnot : ¬ (pindexPrev.nHeight : Int) - b.pindex.nHeight < 179 :=
      fun hlt => hdeep ⟨hanc, hlt⟩
    have hheight := hcore.nHeight
    omega
  · rintro rfl
    obtain ⟨pre, post, hchain⟩ := List.append_of_mem hb
    exact hs.core.ancestor_tip hchain

/-! ### A kernel on the other branch -/

/-- A block on top of the genesis block besides `tipBlock`, with hash 190. -/
def forkBlock : CBlock := rewardBlock 105 90 (rewardTx 11 0x51 (10000 * coin))

def stakeEnv : Env :=
  Env.permissive sampleTxHash sampleBlockHash (fun _ _ _ _ _ _ => true)
    (BlockFiles.ofBlocks [fundingBlock, tipBlock, forkBlock])

def stakeGenesis : Node :=
  { genesisNode with
    mapBlockIndex := Function.update (fun _ => none) 105
      (some { hashBlock := 105, nFile := 1, nBlockPos := 8, nChainTrust := 1 }) }

def branchEntry (nFile nSequenceId : Nat) (block : CBlock) : CBlockIndex :=
  { CBlockIndex.ofBlock (sampleBlockHash block) nFile 8 block with
    pprev := some 105
    nHeight := 1
    nChainTrust := 2
    hashProof := sampleBlockHash block
    nSequenceId := nSequenceId }

def stakeCtx : Ctx := { sampleCtx with nAdjustedTime := 100 }

def grown (node : Node) (nFile : Nat) (block : CBlock) : Node :=
  nodeOf (addToBlockIndex stakeEnv (fun _ => stakeCtx) node block nFile 8 (sampleBlockHash block))

def onBranch (nFile : Nat) (block : CBlock) (nFile' : Nat) (block' : CBlock) : ChainState where
  node := grown (grown stakeGenesis nFile block) nFile' block'
  chain := [⟨block, branchEntry nFile 0 block⟩]

def onTip : ChainState := onBranch 2 tipBlock 3 forkBlock

def onFork : ChainState := onBranch 3 forkBlock 2 tipBlock

def forkCoinstake : CTransaction :=
  { nTime := 4000, vin := [⟨⟨1010, 0⟩, [], uintMax⟩],
    vout := [⟨0, [], -10⟩, ⟨10000 * coin, [1], -10⟩] }

def branchTxs : Set CTransaction := {rewardTx 10 0x51 (10000 * coin), rewardTx 11 0x51 (10000 * coin)}

theorem noCollision_branchTxs : NoCollision stakeEnv.getHash branchTxs := by
  rintro a (rfl | rfl) b (rfl | rfl) heq
  · rfl
  · exact absurd heq (by decide)
  · exact absurd heq (by decide)
  · rfl

theorem atGenesis_stakeGenesis : AtGenesis 105 stakeGenesis :=
  ⟨⟨_, rfl, rfl, rfl, rfl, rfl⟩, rfl⟩

theorem filed_stakeGenesis : Filed stakeEnv stakeGenesis.mapBlockIndex := by
  intro h e he
  obtain ⟨rfl, rfl⟩ := eq_of_single rfl he
  exact ⟨fundingBlock, rfl, rfl⟩

/-- What has to be evaluated of the arrival of a block. -/
structure ArrivesOn (node : Node) (nFile nSequenceId : Nat) (block : CBlock) : Prop where
  checked : checkBlock stakeEnv stakeCtx (node.pindexBest.bind node.mapBlockIndex) block true true true
    = .ok ()
  accepted : acceptBlockChecks stakeEnv stakeCtx node block = .ok (sampleBlockHash block)
  fresh : node.mapBlockIndex (sampleBlockHash block) = none
  batch : node.txdb.activeBatch = none
  stored : stakeEnv.files.readBlock nFile 8 = some block
  entry : newBlockIndex stakeEnv node block nFile 8 (sampleBlockHash block)
    = .ok (branchEntry nFile nSequenceId block)
  txs : ∀ tx ∈ block.vtx, tx ∈ branchTxs

theorem ArrivesOn.step {s : ChainState} {nSequenceId : Nat}
    (h : ArrivesOn s.node nFile nSequenceId block) :
    ChainStep stakeEnv branchTxs 105 s
      { s with node := insertBlockIndex s.node (branchEntry nFile nSequenceId block) } :=
  .accept h.checked h.accepted h.batch h.stored h.entry (show 1 < 2 ^ 31 by decide) h.txs

/-- The second block of two changes nothing but the index. -/
theorem ArrivesOn.grown_eq {nSequenceId : Nat} (h : ArrivesOn node nFile nSequenceId block)
    (htrust : ¬ node.nBestChainTrust < 2) :
    grown node nFile block = insertBlockIndex node (branchEntry nFile nSequenceId block) := by
  have hnone : ¬ (node.mapBlockIndex (stakeEnv.getBlockHash block)).isSome := by
    rw [show node.mapBlockIndex (stakeEnv.getBlockHash block) = none from h.fresh]
    simp
  rw [grown, addToBlockIndex, if_neg hnone, h.entry]
  exact congrArg nodeOf (if_neg htrust)

theorem ArrivesOn.connected (h : ArrivesOn stakeGenesis nFile 0 block)
    (hprev : block.hashPrevBlock = 105)
    (hread : stakeEnv.readBlockFromDisk (branchEntry nFile 0 block) = .ok block)
    (hok : (connectBlock stakeEnv stakeCtx (insertBlockIndex stakeGenesis (branchEntry nFile 0 block)).begun block
      (branchEntry nFile 0 block)).isOk = true) :
    ReflTransGen (ChainStep stakeEnv branchTxs 105) ⟨stakeGenesis, []⟩
      ⟨grown stakeGenesis nFile block, [⟨block, branchEntry nFile 0 block⟩]⟩ := by
  obtain ⟨node', hconn⟩ := exists_of_isOk hok
  have hnone : ¬ (stakeGenesis.mapBlockIndex (stakeEnv.getBlockHash block)).isSome := by
    rw [show stakeGenesis.mapBlockIndex (stakeEnv.getBlockHash block) = none from h.fresh]
    simp
  let begun : Node := (insertBlockIndex stakeGenesis (branchEntry nFile 0 block)).begun
  let attached : Node := { node' with
    txdb := (node'.txdb.writeHashBestChain (sampleBlockHash block)).txnCommit
    mapBlockIndex := setPrevNext node'.mapBlockIndex (sampleBlockHash block)
      (some (sampleBlockHash block))
    mempool := block.vtx.foldl (fun pool tx => pool.remove stakeEnv.getHash tx) node'.mempool }
  -- the call of `AddToBlockIndex`, unfolded into its steps
  have hgrown : grown stakeGenesis nFile block =
      newBestBlock attached (sampleBlockHash block) (branchEntry nFile 0 block) := by
    have hset : setBestChainInner stakeEnv (fun _ => stakeCtx) begun block (branchEntry nFile 0 block)
        = .ok attached := by
      rw [setBestChainInner, hconn]
      rfl
    have hnot : ¬ (begun.pindexGenesisBlock = none ∧
        stakeEnv.getBlockHash block = stakeEnv.hashGenesisBlock) := by
      rintro ⟨hnull, -⟩
      cases hnull
    rw [grown, addToBlockIndex, if_neg hnone, h.entry]
    refine (congrArg nodeOf (if_pos (show 1 < 2 by decide))).trans ?_
    have hbest : block.hashPrevBlock = begun.hashBestChain := hprev
    rw [setBestChain, if_neg hnot, if_pos hbest, hset]
    rfl
  have hentry : begun.mapBlockIndex (branchEntry nFile 0 block).hashBlock =
      some (branchEntry nFile 0 block) := Function.update_self _ _ _
  rw [hgrown]
  have hbegin : ChainStep stakeEnv branchTxs 105
      ⟨insertBlockIndex stakeGenesis (branchEntry nFile 0 block), []⟩ ⟨begun, []⟩ :=
    .other (txIndexMap_txnBegin rfl) (Entrywise.refl CBlockIndex.sameButNext_refl _)
  refine (((ReflTransGen.single h.step).tail hbegin).tail
    (.connect (s := ⟨begun, _⟩) hentry rfl hread hconn)).tail (.other (s := ⟨_, _⟩) ?_ ?_)
  · exact txIndexMap_commit _ _
  · exact sameButNext_setPrevNext _ _ _

theorem arrivesOn_tip : ArrivesOn stakeGenesis 2 0 tipBlock :=
  ⟨by decide, by decide, rfl, rfl, by decide, by decide,
    by simp [branchTxs, tipBlock, rewardBlock, sampleBlock]⟩

theorem arrivesOn_fork : ArrivesOn stakeGenesis 3 0 forkBlock :=
  ⟨by decide, by decide, rfl, rfl, by decide, by decide,
    by simp [branchTxs, forkBlock, rewardBlock, sampleBlock]⟩

theorem arrivesOn_tip_fork : ArrivesOn (grown stakeGenesis 2 tipBlock) 3 1 forkBlock :=
  ⟨by decide, by decide, by decide, by decide, by decide,
    by decide, by simp [branchTxs, forkBlock, rewardBlock, sampleBlock]⟩

theorem arrivesOn_fork_tip : ArrivesOn (grown stakeGenesis 3 forkBlock) 2 1 tipBlock :=
  ⟨by decide, by decide, by decide, by decide, by decide,
    by decide, by simp [branchTxs, tipBlock, rewardBlock, sampleBlock]⟩

theorem chainRun_onTip :
    ReflTransGen (ChainStep stakeEnv branchTxs 105) ⟨stakeGenesis, []⟩ onTip := by
  have hfirst := arrivesOn_tip.connected rfl (by decide) (by decide)
  have hsecond := arrivesOn_tip_fork.grown_eq (by decide)
  rw [onTip, onBranch, hsecond]
  exact hfirst.tail (ArrivesOn.step (s := ⟨_, _⟩) arrivesOn_tip_fork)

theorem chainRun_onFork :
    ReflTransGen (ChainStep stakeEnv branchTxs 105) ⟨stakeGenesis, []⟩ onFork := by
  have hfirst := arrivesOn_fork.connected rfl (by decide) (by decide)
  have hsecond := arrivesOn_fork_tip.grown_eq (by decide)
  rw [onFork, onBranch, hsecond]
  exact hfirst.tail (ArrivesOn.step (s := ⟨_, _⟩) arrivesOn_fork_tip)

/-- What `SameBlock` compares. -/
def blockView (e : CBlockIndex) : Option Uint256 × Nat × Uint256 × Option CBlock :=
  (e.pprev, e.nHeight, e.bnStakeModifierV2, stakeEnv.files.readBlock e.nFile e.nBlockPos)

theorem sameBlocks_of_view {m' : BlockMap} (h : ∀ k, (m' k).map blockView = (m k).map blockView) :
    SameBlocks stakeEnv stakeEnv m' m := by
  intro k
  have hk := h k
  cases hm : m k with
  | none =>
    rw [hm, Option.map_none, Option.map_eq_none_iff] at hk
    rw [hk]
    exact .none
  | some e =>
    rw [hm, Option.map_some, Option.map_eq_some_iff] at hk
    obtain ⟨e', he', hview⟩ := hk
    rw [he']
    simp only [blockView, Prod.mk.injEq] at hview
    exact .some ⟨hview.1, hview.2.1, hview.2.2.1, hview.2.2.2⟩

theorem grown_ok
    (hok : (addToBlockIndex stakeEnv (fun _ => stakeCtx) node block nFile 8 (sampleBlockHash block)).isOk = true)
    (hkey : HashKeyed node.mapBlockIndex) :
    HashKeyed (grown node nFile block).mapBlockIndex ∧
    ∀ h, ((grown node nFile block).mapBlockIndex h).isSome ↔
      (node.mapBlockIndex h).isSome ∨ h = sampleBlockHash block := by
  obtain ⟨node', hnode⟩ := exists_of_isOk hok
  have hgrown : grown node nFile block = node' := by
    rw [grown, hnode]
    rfl
  rw [hgrown]
  exact indexed_addToBlockIndex hkey hnode

/-- The node holds the genesis block and the two blocks on top of it. -/
theorem mapBlockIndex_onBranch {nFile' : Nat} {block' : CBlock} {k : Uint256}
    (hok : (addToBlockIndex stakeEnv (fun _ => stakeCtx) stakeGenesis block nFile 8
        (sampleBlockHash block)).isOk = true)
    (hok' : (addToBlockIndex stakeEnv (fun _ => stakeCtx) (grown stakeGenesis nFile block)
        block' nFile' 8 (sampleBlockHash block')).isOk = true)
    (hk : k ≠ 105) (hblock : k ≠ sampleBlockHash block) (hblock' : k ≠ sampleBlockHash block') :
    (onBranch nFile block nFile' block').node.mapBlockIndex k = none := by
  have hgenesis : ChainInv stakeEnv branchTxs 105 ⟨stakeGenesis, []⟩ :=
    chainInv_genesis atGenesis_stakeGenesis
  obtain ⟨hkey, hfirst⟩ := grown_ok hok hgenesis.core.tree.hash
  obtain ⟨-, hsecond⟩ := grown_ok hok' hkey
  have hnone : stakeGenesis.mapBlockIndex k = none := by
    show Function.update (fun _ => none) 105 _ k = none
    rw [Function.update_of_ne hk]
  rw [← Option.not_isSome_iff_eq_none]
  show ¬ ((grown (grown stakeGenesis nFile block) nFile' block').mapBlockIndex k).isSome = true
  rw [hsecond k, hfirst k, hnone]
  simp [hblock, hblock']

theorem sameBlocks_onBranch :
    SameBlocks stakeEnv stakeEnv onFork.node.mapBlockIndex onTip.node.mapBlockIndex := by
  refine sameBlocks_of_view fun k => ?_
  by_cases h105 : k = 105
  · subst h105
    decide
  · by_cases h120 : k = 120
    · subst h120
      decide
    · by_cases h190 : k = 190
      · subst h190
        decide
      · have htip : onTip.node.mapBlockIndex k = none :=
          mapBlockIndex_onBranch (by decide) (by decide) h105 h120 h190
        have hfork : onFork.node.mapBlockIndex k = none :=
          mapBlockIndex_onBranch (by decide) (by decide) h105 h190 h120
        rw [htip, hfork]

def forkVerdict (node : Node) : Option Bool :=
  (node.mapBlockIndex 190).map fun pindexPrev =>
    (checkProofOfStake stakeEnv (fun _ _ _ _ => 0) node pindexPrev forkCoinstake 0x1e0fffff).isOk

/-- **Two best chains, two verdicts.**  Both nodes hold the same two blocks on top of the genesis block.
The kernel is the coinbase of `tipBlock`, no ancestor of a block on top of `forkBlock`; the node whose
best block is `tipBlock` accepts it, the one whose best block is `forkBlock` does not find it. -/
theorem stakeRun_differs :
    AtGenesis 105 stakeGenesis ∧
    ReflTransGen (ChainStep stakeEnv branchTxs 105) ⟨stakeGenesis, []⟩ onTip ∧
    ReflTransGen (ChainStep stakeEnv branchTxs 105) ⟨stakeGenesis, []⟩ onFork ∧
    SameBlocks stakeEnv stakeEnv onFork.node.mapBlockIndex onTip.node.mapBlockIndex ∧
    onTip.node.pindexBest = some 120 ∧ onFork.node.pindexBest = some 190 ∧
    forkVerdict onTip.node = some true ∧ forkVerdict onFork.node = some false ∧
    ¬ ∃ X, ConfirmedBy stakeEnv onTip.chain (kernelOf forkCoinstake).hash X ∧
      Ancestor (parentOf onTip.node.mapBlockIndex) 190 X := by
  refine ⟨atGenesis_stakeGenesis, chainRun_onTip, chainRun_onFork, sameBlocks_onBranch,
    by decide, by decide, by decide, by decide, ?_⟩
  rintro ⟨X, ⟨b, hb, rfl, -⟩, hanc⟩
  have hb' : b = ⟨tipBlock, branchEntry 2 0 tipBlock⟩ := List.mem_singleton.mp hb
  subst hb'
  have hparent : parentOf onTip.node.mapBlockIndex 190 = some 105 := by decide
  have hroot : parentOf onTip.node.mapBlockIndex 105 = none := by decide
  rcases (ancestor_iff hparent).mp hanc with heq | hanc
  · exact absurd heq (by decide)
  · exact absurd (eq_of_ancestor_root hroot hanc) (by decide)

def unknownCoinstake : CTransaction := { forkCoinstake with vin := [⟨⟨7, 0⟩, [], uintMax⟩] }

/-- The first node has the kernel in a block of its best chain; an unknown kernel has one verdict on both. -/
theorem stakeRun_spec_branches :
    (∃ X entry, ConfirmedBy stakeEnv onTip.chain (kernelOf forkCoinstake).hash X ∧
      onTip.node.mapBlockIndex X = some entry) ∧
    ∃ pindexPrev pindexPrev', onTip.node.mapBlockIndex 190 = some pindexPrev ∧
      onFork.node.mapBlockIndex 190 = some pindexPrev' ∧
      checkProofOfStake stakeEnv (fun _ _ _ _ => 0) onTip.node pindexPrev unknownCoinstake 0x1e0fffff =
        checkProofOfStake stakeEnv (fun _ _ _ _ => 0) onFork.node pindexPrev' unknownCoinstake 0x1e0fffff := by
  obtain ⟨pindexPrev, hprev⟩ : ∃ pindexPrev, onTip.node.mapBlockIndex 190 = some pindexPrev :=
    Option.isSome_iff_exists.mp (by decide)
  obtain ⟨pindexPrev', hprev'⟩ : ∃ pindexPrev, onFork.node.mapBlockIndex 190 = some pindexPrev :=
    Option.isSome_iff_exists.mp (by decide)
  have hfiled : Filed (stakeEnv.withFiles stakeEnv.files) stakeGenesis.mapBlockIndex :=
    filed_stakeGenesis
  have hspec := stakeRun_spec (fun _ _ _ _ => 0) noCollision_branchTxs
    atGenesis_stakeGenesis filed_stakeGenesis chainRun_onTip (by decide)
    atGenesis_stakeGenesis hfiled chainRun_onFork (by decide) sameBlocks_onBranch hprev hprev'
  have hok : forkVerdict onTip.node = some true := by decide
  rw [forkVerdict, hprev, Option.map_some, Option.some.injEq] at hok
  obtain ⟨X, entry, hconf, hentry, -⟩ := (hspec forkCoinstake 0x1e0fffff).2 hok
  refine ⟨⟨X, entry, hconf, hentry⟩, pindexPrev, pindexPrev', hprev, hprev',
    (hspec unknownCoinstake 0x1e0fffff).1 fun X => ?_⟩
  -- no block of the two chains has it
  refine iff_of_false ?_ ?_
  all_goals
    rintro ⟨b, hb, -, tx, htx, heq⟩
    obtain rfl := List.mem_singleton.mp hb
    obtain rfl := List.mem_singleton.mp htx
    exact absurd heq (by decide)

end Sphinx
