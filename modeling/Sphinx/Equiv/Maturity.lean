import Sphinx.Equiv.BlockLocator
import Sphinx.Equiv.MerkleTx
import Sphinx.Equiv.Stake

/-!
# Maturity

Three places ask whether a coinbase or coinstake may be spent: `ConnectInputs` from the best block, for the
memory pool, `ConnectInputs` from a new block, and the wallet.

* `Spend.immature_best_iff`, `Spend.immature_new_iff`: the depth at which each check refuses the input;
* `depth_of_getBlocksToMaturity`: the depth at which the wallet spends the output;
* `oneMaturityRule_iff`: the three agree but at one depth.
-/

namespace Sphinx

open ParentTree

variable {env : Env} {genesis tip : Uint256} {node : Node} {pindex pindexNew : CBlockIndex}
  {txPrev : CTransaction} {pos : CDiskTxPos}
variable {n : Nat}
variable {k : Nat}

/-! ### The checks -/

/-- An input that spends an output of `txPrev`, whose index entry has the position `pos`. -/
structure Spend (txPrev : CTransaction) (pos : CDiskTxPos) where
  tx : CTransaction
  inputs : MapPrevTx
  nValueIn : CAmount
  prevout : COutPoint
  txindex : CTxIndex
  lookup : inputs.lookup prevout.hash = some (txindex, txPrev)
  pos_eq : txindex.pos = pos
  lt_vout : prevout.n < txPrev.vout.length
  lt_vSpent : prevout.n < txindex.vSpent.length

namespace Spend

/-- `ConnectInputs` at `pindexBlock` refuses the input because of its depth. -/
def immature (s : Spend txPrev pos) (m : BlockMap) (pindexBlock : Option Uint256) : Prop :=
  checkInput m pindexBlock s.tx s.inputs s.nValueIn s.prevout =
    error "ConnectInputs() : tried to spend coinbase or coinstake at depth"

theorem immature_iff (s : Spend txPrev pos) (hgen : (txPrev.isCoinBase || txPrev.isCoinStake) = true)
    (m : BlockMap) (pindexBlock : Option Uint256) : s.immature m pindexBlock ↔
      (isConfirmedInNPrevBlocks m s.txindex pindexBlock nCoinbaseMaturity).isSome = true := by
  have hlt := s.lt_vout
  have hrange : ¬(decide (txPrev.vout.length ≤ s.prevout.n) ||
      decide (s.txindex.vSpent.length ≤ s.prevout.n)) = true := by
    have hvSpent := s.lt_vSpent
    simp only [Bool.or_eq_true, decide_eq_true_eq]
    omega
  have hout : getOutputFor s.inputs s.prevout = .ok txPrev.vout[s.prevout.n] := by
    simp only [getOutputFor, s.lookup, List.getElem?_eq_getElem s.lt_vout]
  unfold immature checkInput
  simp only [s.lookup, rejectIf, if_neg hrange, hgen, Bool.true_and, hout]
  cases hconfirmed : (isConfirmedInNPrevBlocks m s.txindex pindexBlock nCoinbaseMaturity).isSome with
  | true => exact iff_of_true rfl rfl
  | false =>
    -- the checks that come later have other texts
    refine iff_of_false (fun h => ?_) (by simp)
    revert h
    by_cases htime : s.tx.nTime < txPrev.nTime
    · simp [htime, error, bind, Except.bind]
    · by_cases hmoney : (!moneyRange txPrev.vout[s.prevout.n].nValue ||
          !moneyRange (s.nValueIn + txPrev.vout[s.prevout.n].nValue)) = true
      · simp [htime, hmoney, error, bind, Except.bind]
      · simp [htime, hmoney, error, bind, Except.bind, pure, Except.pure]

end Spend

/-! ### The depth of the block -/

/-- The search from `start` finds the block of the transaction if it is not too deep. -/
theorem isConfirmed_iff_depth {m : BlockMap} (ht : IndexTree m genesis) (hfiled : Filed env m)
    {start : CBlockIndex} (hfrom : m start.hashBlock = some start) (hentry : m pindex.hashBlock = some pindex)
    (hanc : Ancestor (parentOf m) start.hashBlock pindex.hashBlock) {txindex : CTxIndex}
    (hplace : txindex.pos.inBlock pindex) (nMaxDepth : Nat) :
    (isConfirmedInNPrevBlocks m txindex (some start.hashBlock) nMaxDepth).isSome = true ↔
      (start.nHeight : Int) - pindex.nHeight < nMaxDepth := by
  rw [isSome_isConfirmedInNPrevBlocks_iff ht hfrom]
  constructor
  · rintro ⟨a, entry, -, ha, hdepth, nTxPos, hpos⟩
    -- no other block is stored at this place
    obtain ⟨nTxPos', hpos'⟩ := hplace
    obtain ⟨hfile, hblockPos, -⟩ := CDiskTxPos.pos.inj (hpos.symm.trans hpos')
    have hhash := hfiled.inj ha hentry hfile hblockPos
    rw [hhash, hentry] at ha
    rwa [Option.some.inj ha]
  · intro hdepth
    exact ⟨_, pindex, hanc, hentry, hdepth, hplace⟩

/-- `pindex` is a block of the main chain, where `pos` says that a transaction is, and `pindexNew` a new
block on top of the best one. -/
structure OnTop (env : Env) (genesis tip : Uint256) (node : Node) (pindex pindexNew : CBlockIndex)
    (pos : CDiskTxPos) : Prop where
  tree : IndexTree node.mapBlockIndex genesis
  mem : tip ∈ indexed node.mapBlockIndex
  best : node.pindexBest = some tip
  follows : Follows (parentOf node.mapBlockIndex) (nextOf node.mapBlockIndex) tip
  entry : node.mapBlockIndex pindex.hashBlock = some pindex
  main : isInMainChain node pindex = true
  place : pos.inBlock pindex
  fresh : node.mapBlockIndex pindexNew.hashBlock = none
  pprev : pindexNew.pprev = some tip
  nHeight : (pindexNew.nHeight : Int) = bestHeight node + 1
  filed : Filed env (insertBlockIndex node pindexNew).mapBlockIndex

namespace OnTop

section

variable (h : OnTop env genesis tip node pindex pindexNew pos)

include h

theorem exists_best : ∃ etip : CBlockIndex,
    etip.hashBlock = tip ∧ node.mapBlockIndex etip.hashBlock = some etip ∧ bestHeight node = etip.nHeight := by
  obtain ⟨etip, hetip⟩ := exists_of_mem_indexed h.mem
  have hhash := h.tree.hash hetip
  refine ⟨etip, hhash, by rw [hhash, hetip], ?_⟩
  rw [bestHeight, h.best, Option.bind_some, hetip]

theorem ancestor :
    Ancestor (parentOf node.mapBlockIndex) tip pindex.hashBlock := by
  have hmain := h.main
  rw [isInMainChain, h.best] at hmain
  rw [← h.follows.ancestor_iff pindex.hashBlock, nextOf_eq h.entry]
  simpa [Option.ne_none_iff_isSome] using hmain

theorem grown :
    Grown node.mapBlockIndex (insertBlockIndex node pindexNew).mapBlockIndex := grown_insert h.fresh

theorem filed_before : Filed env node.mapBlockIndex := by
  intro k e he
  have hne : k ≠ pindexNew.hashBlock := by
    rintro rfl
    rw [h.fresh] at he
    cases he
  exact h.filed k e ((Function.update_of_ne hne _ _).trans he)

end

end OnTop

namespace Spend

variable (s : Spend txPrev pos)

theorem immature_best_iff (h : OnTop env genesis tip node pindex pindexNew pos)
    (hgen : (txPrev.isCoinBase || txPrev.isCoinStake) = true) :
    s.immature node.mapBlockIndex node.pindexBest ↔ bestHeight node - pindex.nHeight < nCoinbaseMaturity := by
  obtain ⟨etip, rfl, hetip, hheight⟩ := h.exists_best
  rw [s.immature_iff hgen, h.best, hheight]
  exact isConfirmed_iff_depth h.tree h.filed_before hetip h.entry h.ancestor (by rw [s.pos_eq]; exact h.place) _

theorem immature_new_iff (h : OnTop env genesis tip node pindex pindexNew pos)
    (hgen : (txPrev.isCoinBase || txPrev.isCoinStake) = true) :
    s.immature (insertBlockIndex node pindexNew).mapBlockIndex (some pindexNew.hashBlock) ↔
      bestHeight node + 1 - pindex.nHeight < nCoinbaseMaturity := by
  obtain ⟨etip, rfl, hetip, hheight⟩ := h.exists_best
  have hnew : pindexNew.nHeight = etip.nHeight + 1 := by
    have heq := h.nHeight
    omega
  have htree := h.tree.insert h.fresh h.pprev hetip hnew
  have hentry : (insertBlockIndex node pindexNew).mapBlockIndex pindexNew.hashBlock = some pindexNew :=
    Function.update_self _ _ _
  have hkept : (insertBlockIndex node pindexNew).mapBlockIndex pindex.hashBlock = some pindex := by
    have hne : pindex.hashBlock ≠ pindexNew.hashBlock := by
      intro heq
      have hnone := h.fresh
      rw [← heq, h.entry] at hnone
      cases hnone
    exact (Function.update_of_ne hne _ _).trans h.entry
  have hanc : Ancestor (parentOf (insertBlockIndex node pindexNew).mapBlockIndex) pindexNew.hashBlock
      pindex.hashBlock := by
    refine .of_parent ((parentOf_eq hentry).trans h.pprev) ?_
    exact (h.tree.graded.ancestor_congr (fun _ hmem => h.grown.parent hmem) h.mem).mpr h.ancestor
  rw [s.immature_iff hgen, ← h.nHeight]
  exact isConfirmed_iff_depth htree h.filed hentry hkept hanc (by rw [s.pos_eq]; exact h.place) _

end Spend

/-! ### The wallet -/

namespace CMerkleTx

variable (mtx : CMerkleTx) (env : Env) (node : Node) (fMerkleVerified : Bool)

theorem getDepthInMainChainInternal_cases : (mtx.getDepthInMainChainInternal env node fMerkleVerified).1 = 0 ∨
    ∃ pindex, node.mapBlockIndex mtx.hashBlock = some pindex ∧ isInMainChain node pindex = true ∧
      (mtx.getDepthInMainChainInternal env node fMerkleVerified).1 = bestHeight node - pindex.nHeight + 1 := by
  unfold getDepthInMainChainInternal
  split
  · exact .inl rfl
  · cases hentry : node.mapBlockIndex mtx.hashBlock with
    | none => exact .inl rfl
    | some pindex =>
      dsimp only
      by_cases hmain : (!isInMainChain node pindex) = true
      · rw [if_pos hmain]
        exact .inl rfl
      · rw [if_neg hmain]
        split
        · exact .inl rfl
        · exact .inr ⟨pindex, rfl, by simpa using hmain, rfl⟩

/-- InstantX raises only a depth that is far from maturity. -/
theorem getDepthInMainChain_cases (nSignatures nArg : Int) (enableIX : Bool) :
    mtx.getDepthInMainChain env node nSignatures (instantXDepth nArg) enableIX fMerkleVerified < 70 ∨
      mtx.getDepthInMainChain env node nSignatures (instantXDepth nArg) enableIX fMerkleVerified =
        (mtx.getDepthInMainChainInternal env node fMerkleVerified).1 := by
  have hbound : instantXDepth nArg ≤ 60 := min_le_right _ _
  unfold getDepthInMainChain
  dsimp only
  split
  · exact .inl (by decide)
  · split
    · rename_i hix
      simp only [Bool.and_eq_true, decide_eq_true_eq] at hix
      exact .inl (by omega)
    · exact .inr rfl

/-- The record of a transaction in the block `pindex`: another block of the main chain is not named. -/
def NamesBlock (pindex : CBlockIndex) : Prop :=
  ∀ p, node.mapBlockIndex mtx.hashBlock = some p → isInMainChain node p = true → p = pindex

theorem depth_of_getBlocksToMaturity (hgen : (mtx.tx.isCoinBase || mtx.tx.isCoinStake) = true)
    (hblock : mtx.NamesBlock node pindex) {nSignatures nArg : Int}
    (h : mtx.getBlocksToMaturity env node nSignatures (instantXDepth nArg) fMerkleVerified = 0) :
    nCoinbaseMaturity ≤ bestHeight node - pindex.nHeight + 1 := by
  have hmaturity : nCoinbaseMaturity = 99 := rfl
  have hgen' : ¬(!(mtx.tx.isCoinBase || mtx.tx.isCoinStake)) = true := by simp [hgen]
  rw [getBlocksToMaturity, if_neg hgen'] at h
  have hdepth := max_eq_left_iff.mp h
  rcases mtx.getDepthInMainChain_cases env node fMerkleVerified nSignatures nArg true with
    hlow | heq
  · omega
  · rw [heq] at hdepth
    rcases mtx.getDepthInMainChainInternal_cases env node fMerkleVerified with
      hzero | ⟨p, hentry, hmain, hp⟩
    · omega
    · rw [hblock p hentry hmain] at hp
      omega

end CMerkleTx

/-! ### One rule -/

/-- The input `s` of a transaction for the memory pool and the input `s'` of a transaction in the next block
pass the check at the same time, and both pass when the wallet has no more blocks to wait for. -/
structure OneMaturityRule (env : Env) (node : Node) (pindex pindexNew : CBlockIndex) (s s' : Spend txPrev pos) :
    Prop where
  same : ¬s.immature node.mapBlockIndex node.pindexBest ↔
    ¬s'.immature (insertBlockIndex node pindexNew).mapBlockIndex (some pindexNew.hashBlock)
  wallet : ∀ (mtx : CMerkleTx) (fMerkleVerified : Bool) (nSignatures nArg : Int), mtx.tx = txPrev →
    mtx.NamesBlock node pindex →
    mtx.getBlocksToMaturity env node nSignatures (CMerkleTx.instantXDepth nArg) fMerkleVerified = 0 →
    ¬s.immature node.mapBlockIndex node.pindexBest ∧
      ¬s'.immature (insertBlockIndex node pindexNew).mapBlockIndex (some pindexNew.hashBlock)

/-- **The rules agree unless the depth is 99.**  There the wallet spends the output and the next block may
take it, and the memory pool refuses it. -/
theorem oneMaturityRule_iff (h : OnTop env genesis tip node pindex pindexNew pos)
    (hgen : (txPrev.isCoinBase || txPrev.isCoinStake) = true) (s s' : Spend txPrev pos) :
    OneMaturityRule env node pindex pindexNew s s' ↔
      bestHeight node - pindex.nHeight + 1 ≠ nCoinbaseMaturity := by
  have hmempool := s.immature_best_iff h hgen
  have hblock := s'.immature_new_iff h hgen
  constructor
  · rintro ⟨hsame, -⟩ hdepth
    rw [hmempool, hblock] at hsame
    omega
  · intro hdepth
    constructor
    · rw [hmempool, hblock]
      omega
    · rintro mtx fMerkleVerified nSignatures nArg rfl hnames hzero
      have hle := mtx.depth_of_getBlocksToMaturity env node fMerkleVerified hgen hnames hzero
      rw [hmempool, hblock]
      omega

/-! ### A chain of blocks at different places -/

def lineTx (k : Nat) : CTransaction := rewardTx k 0x51 (10000 * coin)

/-- The block at the height `k`, with hash `100 + k`. -/
def lineBlock (k : Nat) : CBlock := rewardBlock (99 + k) k (lineTx k)

def placedEntry (e : CBlockIndex) : CBlockIndex := { e with nFile := e.nHeight + 1, nBlockPos := 8 }

def placedMap (n : Nat) : BlockMap := fun h => (lineMap n h).map placedEntry

def placedNode (n : Nat) : Node := { lineNode n with mapBlockIndex := placedMap n }

def topEntry (n : Nat) : CBlockIndex := placedEntry (lineIndex (n + 1) (n + 1))

def placedEnv (n : Nat) : Env :=
  Env.permissive sampleTxHash sampleBlockHash (fun _ _ _ _ _ _ => true)
    (BlockFiles.ofBlocks ((List.range (n + 2)).map lineBlock))

theorem placedMap_height (hk : k ≤ n) :
    placedMap n (100 + k) = some (placedEntry (lineIndex n k)) := by
  rw [placedMap, lineMap_height hk, Option.map_some]

theorem exists_of_placedMap {h : Nat} {e : CBlockIndex} (he : placedMap n h = some e) :
    ∃ k ≤ n, h = 100 + k ∧ e = placedEntry (lineIndex n k) := by
  obtain ⟨e', he', rfl⟩ := Option.map_eq_some_iff.mp he
  obtain ⟨k, hk, rfl, rfl⟩ := exists_of_lineMap he'
  exact ⟨k, hk, rfl, rfl⟩

theorem indexTree_placedMap (n : Nat) : IndexTree (placedMap n) 100 := by
  refine ⟨fun he => ?_, ⟨_, placedMap_height (Nat.zero_le n), rfl, rfl⟩, fun he hne => ?_⟩
  · obtain ⟨k, -, rfl, rfl⟩ := exists_of_placedMap he
    rfl
  · obtain ⟨e', he', rfl⟩ := Option.map_eq_some_iff.mp he
    obtain ⟨prev, entry, hpprev, hprev, hheight⟩ := (indexTree_lineMap n).prev he' hne
    exact ⟨prev, placedEntry entry, hpprev, by rw [placedMap, hprev, Option.map_some], hheight⟩

theorem parentOf_placedMap (hk : k + 1 ≤ n) :
    parentOf (placedMap n) (100 + (k + 1) : Nat) = some (100 + k : Nat) := by
  rw [parentOf_eq (placedMap_height hk)]
  show some (99 + (k + 1)) = some (100 + k)
  congr 1
  omega

theorem nextOf_placedMap (hk : k + 1 ≤ n) :
    nextOf (placedMap n) (100 + k : Nat) = some (100 + (k + 1) : Nat) := by
  rw [nextOf_eq (placedMap_height (Nat.le_of_succ_le hk))]
  show (if k < n then some (101 + k) else none) = some (100 + (k + 1))
  rw [if_pos (show k < n from hk)]
  congr 1
  omega

theorem ancestor_placedMap : ∀ {j : Nat}, k + j ≤ n →
    Ancestor (parentOf (placedMap n)) (100 + (k + j) : Nat) (100 + k : Nat)
  | 0, _ => ancestor_refl _
  | _ + 1, hj => .of_parent (parentOf_placedMap hj) (ancestor_placedMap (Nat.le_of_succ_le hj))

theorem ancestor_placedMap_tip (hk : k ≤ n) :
    Ancestor (parentOf (placedMap n)) (100 + n : Nat) (100 + k : Nat) := by
  have hanc := ancestor_placedMap (n := n) (k := k) (j := n - k) (by omega)
  rwa [Nat.add_sub_of_le hk] at hanc

theorem follows_placedMap (n : Nat) :
    Follows (parentOf (placedMap n)) (nextOf (placedMap n)) (100 + n : Nat) := by
  intro b m
  constructor
  · intro hnext
    obtain ⟨e, he, hpnext⟩ := Option.bind_eq_some_iff.mp hnext
    obtain ⟨k, hk, rfl, rfl⟩ := exists_of_placedMap he
    have hlt : k < n := by
      by_contra hnot
      have hnone : (placedEntry (lineIndex n k)).pnext = none := if_neg hnot
      rw [hnone] at hpnext
      cases hpnext
    obtain rfl := Option.some.inj ((nextOf_placedMap hlt).symm.trans hnext)
    exact ⟨parentOf_placedMap hlt, ancestor_placedMap_tip hlt⟩
  · rintro ⟨hparent, -⟩
    obtain ⟨e, he, hpprev⟩ := Option.bind_eq_some_iff.mp hparent
    obtain ⟨k, hk, rfl, rfl⟩ := exists_of_placedMap he
    cases k with
    | zero => cases hpprev
    | succ j =>
      obtain rfl := Option.some.inj ((parentOf_placedMap hk).symm.trans hparent)
      exact nextOf_placedMap hk

theorem bestHeight_placedNode (n : Nat) : bestHeight (placedNode n) = n := by
  have hbest : (placedNode n).pindexBest.bind (placedNode n).mapBlockIndex = some (placedEntry (lineIndex n n)) :=
    placedMap_height le_rfl
  rw [bestHeight, hbest]
  rfl

theorem onTop_placed (hk : k ≤ n) : OnTop (placedEnv n) 100 (100 + n) (placedNode n)
    (placedEntry (lineIndex n k)) (topEntry n) (.pos (k + 1) 8 89) where
  tree := indexTree_placedMap n
  mem := mem_indexed (placedMap_height le_rfl)
  best := rfl
  follows := follows_placedMap n
  entry := placedMap_height hk
  main := by
    rcases hk.lt_or_eq with hlt | rfl
    · have hnext : (placedEntry (lineIndex n k)).pnext = some (101 + k) := if_pos hlt
      rw [isInMainChain, hnext]
      rfl
    · have hself : some (placedEntry (lineIndex k k)).hashBlock = (placedNode k).pindexBest := rfl
      rw [isInMainChain, decide_eq_true hself, Bool.or_true]
  place := ⟨89, rfl⟩
  fresh := by
    rw [Option.eq_none_iff_forall_ne_some]
    intro e he
    obtain ⟨j, hj, heq, -⟩ := exists_of_placedMap (h := 100 + (n + 1)) he
    omega
  pprev := by
    show (if n + 1 = 0 then none else some (99 + (n + 1))) = some (100 + n)
    rw [if_neg (Nat.succ_ne_zero n)]
    congr 1
    omega
  nHeight := by
    rw [bestHeight_placedNode]
    rfl
  filed := by
    have hread : ∀ j, j < n + 2 → (placedEnv n).files.readBlock (j + 1) 8 = some (lineBlock j) := by
      intro j hj
      show (if j + 1 ≠ 0 ∧ 8 = 8 then ((List.range (n + 2)).map lineBlock)[j + 1 - 1]? else none) = _
      rw [if_pos ⟨Nat.succ_ne_zero j, rfl⟩, Nat.add_sub_cancel, List.getElem?_map, List.getElem?_range hj]
      rfl
    intro (h : Nat) e he
    have hmap : Function.update (placedMap n) (100 + (n + 1) : Nat) (some (topEntry n)) h = some e := he
    by_cases hnew : h = 100 + (n + 1)
    · rw [hnew, Function.update_self] at hmap
      obtain rfl := Option.some.inj hmap
      exact ⟨lineBlock (n + 1), hread (n + 1) (Nat.lt_succ_self _), hnew.symm⟩
    · rw [Function.update_of_ne hnew] at hmap
      obtain ⟨j, hj, rfl, rfl⟩ := exists_of_placedMap hmap
      exact ⟨lineBlock j, hread j (by omega), rfl⟩

def lineSpend (k : Nat) : Spend (lineTx k) (.pos (k + 1) 8 89) where
  tx := { nTime := k, vin := [⟨⟨1000 + k, 0⟩, [], uintMax⟩], vout := [⟨10000 * coin, [1], -10⟩] }
  inputs := AList.singleton (1000 + k) (CTxIndex.mk' (.pos (k + 1) 8 89) 1, lineTx k)
  nValueIn := 0
  prevout := ⟨1000 + k, 0⟩
  txindex := CTxIndex.mk' (.pos (k + 1) 8 89) 1
  lookup := AList.lookup_insert ∅
  pos_eq := rfl
  lt_vout := Nat.one_pos
  lt_vSpent := Nat.one_pos

/-- Five blocks above the coinbase, every check refuses it. -/
theorem oneMaturityRule_five : OneMaturityRule (placedEnv 6) (placedNode 6) (placedEntry (lineIndex 6 1))
    (topEntry 6) (lineSpend 1) (lineSpend 1) := by
  refine (oneMaturityRule_iff (onTop_placed (by decide)) rfl (lineSpend 1) (lineSpend 1)).mpr ?_
  rw [bestHeight_placedNode]
  decide

/-- **The memory pool is one block late.**  At the depth 99 the wallet has no block to wait for and the next
block may take the input, and the memory pool refuses it. -/
theorem oneMaturityRule_fails :
    OnTop (placedEnv 99) 100 199 (placedNode 99) (placedEntry (lineIndex 99 1)) (topEntry 99) (.pos 2 8 89) ∧
    (lineTx 1).isCoinBase = true ∧
    (lineSpend 1).immature (placedNode 99).mapBlockIndex (placedNode 99).pindexBest ∧
    ¬(lineSpend 1).immature (insertBlockIndex (placedNode 99) (topEntry 99)).mapBlockIndex
      (some (topEntry 99).hashBlock) ∧
    ¬OneMaturityRule (placedEnv 99) (placedNode 99) (placedEntry (lineIndex 99 1)) (topEntry 99)
      (lineSpend 1) (lineSpend 1) := by
  have htop := onTop_placed (n := 99) (k := 1) (by decide)
  have hgen : ((lineTx 1).isCoinBase || (lineTx 1).isCoinStake) = true := rfl
  have hheight : (placedEntry (lineIndex 99 1)).nHeight = 1 := rfl
  have hmempool : (lineSpend 1).immature (placedNode 99).mapBlockIndex (placedNode 99).pindexBest := by
    rw [(lineSpend 1).immature_best_iff htop hgen, bestHeight_placedNode, hheight]
    decide
  have hblock : ¬(lineSpend 1).immature (insertBlockIndex (placedNode 99) (topEntry 99)).mapBlockIndex
      (some (topEntry 99).hashBlock) := by
    rw [(lineSpend 1).immature_new_iff htop hgen, bestHeight_placedNode, hheight]
    decide
  exact ⟨htop, rfl, hmempool, hblock, fun h => h.same.mpr hblock hmempool⟩

end Sphinx
