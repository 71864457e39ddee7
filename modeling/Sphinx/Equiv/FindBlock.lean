import Sphinx.BlockLocator
import Sphinx.Equiv.MainChain

/-!
# The block at a height

The pointer that `FindBlockByHeight` keeps is a block of the main chain: `SetBestChain` drops it when it
moves the best block, and nothing else moves the main chain.  A walk that starts in the main chain, down
along `pprev` or up along `pnext`, stays there.

* `findBlockByHeight_spec`: the block found, in a state with such a pointer;
* `findBlock_run`: the states of all runs in which no postponed block fails to connect;
* `findBlock_run_fails`: a run in which one does, and a null pointer is followed.
-/

namespace Sphinx

open ParentTree Relation

variable {env : Env} {ctx : Uint256 → Ctx} {genesis tip : Uint256} {node : Node}

/-! ### The walks -/

section

variable {m : BlockMap} {nHeight : Nat}

/-- `e` is the entry of a block of the chain that ends in `tip`. -/
structure ChainEntry (m : BlockMap) (tip : Uint256) (e : CBlockIndex) : Prop where
  entry : m e.hashBlock = some e
  ancestor : Ancestor (parentOf m) tip e.hashBlock

theorem chainEntry_tip (ht : IndexTree m genesis) (htip : tip ∈ indexed m) :
    ∃ e, m tip = some e ∧ ChainEntry m tip e := by
  obtain ⟨e, he⟩ := exists_of_mem_indexed htip
  have hhash := ht.hash he
  refine ⟨e, he, by rw [hhash]; exact he, ?_⟩
  rw [hhash]
  exact ancestor_refl tip

theorem chainEntry_genesis (ht : IndexTree m genesis) (htip : tip ∈ indexed m) :
    ∃ e, m genesis = some e ∧ ChainEntry m tip e := by
  obtain ⟨e, he, -⟩ := ht.root
  have hhash := ht.hash he
  refine ⟨e, he, by rw [hhash]; exact he, ?_⟩
  rw [hhash]
  exact ht.graded.ancestor_root htip

/-- Down to the height, or no step at all. -/
theorem walkDown_spec (ht : IndexTree m genesis) :
    ∀ (fuel : Nat) {e : CBlockIndex}, ChainEntry m tip e → e.nHeight < fuel →
      ∃ e', walkDown m nHeight fuel e = .ok e' ∧ ChainEntry m tip e' ∧ e'.nHeight ≤ nHeight ∧
        (e'.nHeight = nHeight ∨ e' = e) := by
  intro fuel
  induction fuel with
  | zero =>
    intro e _ hfuel
    omega
  | succ fuel ih =>
    intro e he hfuel
    rw [walkDown]
    by_cases hlt : (nHeight : Int) < e.nHeight
    · obtain ⟨prev, hprev, hentry, hparent, hheight⟩ := ht.exists_pprev he.entry (by omega)
      rw [if_pos hlt, hprev]
      obtain ⟨e', hwalk, he', hle, hreached⟩ := ih ⟨hentry, he.ancestor.tail hparent⟩ (by omega)
      refine ⟨e', hwalk, he', hle, .inl ?_⟩
      obtain hreached | rfl := hreached
      · exact hreached
      · omega
    · rw [if_neg hlt]
      exact ⟨e, rfl, he, by omega, .inr rfl⟩

/-- Up to the height, which the chain has. -/
theorem walkUp_spec (ht : IndexTree m genesis) (htip : tip ∈ indexed m)
    (hfollows : Follows (parentOf m) (nextOf m) tip) (hchain : nHeight ≤ heightOf m tip) :
    ∀ (fuel : Nat) {e : CBlockIndex}, ChainEntry m tip e → e.nHeight ≤ nHeight → nHeight - e.nHeight < fuel →
      ∃ e', walkUp m nHeight fuel e = .ok e' ∧ ChainEntry m tip e' ∧ e'.nHeight = nHeight := by
  intro fuel
  induction fuel with
  | zero =>
    intro e _ _ hfuel
    omega
  | succ fuel ih =>
    intro e he hle hfuel
    rw [walkUp]
    by_cases hlt : (e.nHeight : Int) < nHeight
    · -- the entry is not the tip, so it has a next one
      have hne : e.hashBlock ≠ tip := by
        intro heq
        have := heightOf_eq he.entry
        rw [heq] at this
        omega
      have hsome := ((hfollows.ancestor_iff e.hashBlock).mpr he.ancestor).resolve_right hne
      obtain ⟨n, hn⟩ := Option.ne_none_iff_exists'.mp hsome
      obtain ⟨hparent, hanc⟩ := (hfollows e.hashBlock n).mp hn
      have hmem := ht.graded.mem_of_ancestor htip hanc
      have hheight := ht.graded.height_eq hmem hparent
      obtain ⟨next, hnext⟩ := exists_of_mem_indexed hmem
      have hhash := ht.hash hnext
      rw [heightOf_eq hnext, heightOf_eq he.entry] at hheight
      rw [nextOf_eq he.entry] at hn
      rw [if_pos hlt, hn, Option.bind_some, hnext]
      have hentry : ChainEntry m tip next := by
        refine ⟨?_, ?_⟩
        · rw [hhash]
          exact hnext
        · rw [hhash]
          exact hanc
      exact ih hentry (by omega) (by omega)
    · rw [if_neg hlt]
      exact ⟨e, rfl, he, by omega⟩

end

/-! ### The call -/

/-- The state is sound: the index and the globals agree on the tip, and the pointer is in its chain. -/
structure ViewInv (env : Env) (genesis : Uint256) (s : ChainView) (tip : Uint256) : Prop where
  best : BestInv env genesis s.node tip
  started : s.node.pindexGenesisBlock = some genesis
  last : ∀ b, s.pblockindexFBBHLast = some b → Ancestor (parentOf s.node.mapBlockIndex) tip b

variable {s : ChainView}

theorem searchStart_spec (h : ViewInv env genesis s tip) (nHeight : Int) :
    ∃ e, s.searchStart nHeight = .ok e ∧ ChainEntry s.node.mapBlockIndex tip e := by
  have htree := h.best.chainTip.tree
  have hmem := h.best.chainTip.mem
  obtain ⟨first, hfirst, hfirstChain⟩ :
      ∃ e, (if nHeight < s.node.nBestHeight.tdiv 2 then s.node.pindexGenesisBlock else s.node.pindexBest).bind
        s.node.mapBlockIndex = some e ∧ ChainEntry s.node.mapBlockIndex tip e := by
    split_ifs
    · rw [h.started]
      exact chainEntry_genesis htree hmem
    · rw [h.best.best]
      exact chainEntry_tip htree hmem
  unfold ChainView.searchStart
  simp only [hfirst]
  cases hlast : s.pblockindexFBBHLast.bind s.node.mapBlockIndex with
  | none => exact ⟨first, rfl, hfirstChain⟩
  | some last =>
    obtain ⟨b, hb, hentry⟩ := Option.bind_eq_some_iff.mp hlast
    have hhash := htree.hash hentry
    have hlastChain : ChainEntry s.node.mapBlockIndex tip last := by
      refine ⟨?_, ?_⟩
      · rw [hhash]
        exact hentry
      · rw [hhash]
        exact h.last b hb
    simp only
    split_ifs
    · exact ⟨last, rfl, hlastChain⟩
    · exact ⟨first, rfl, hfirstChain⟩

theorem findBlockByHeight_state {s' : ChainView} {nHeight : Int} {e : CBlockIndex}
    (h : s.findBlockByHeight nHeight = .ok (e, s')) : s' = { s with pblockindexFBBHLast := some e.hashBlock } := by
  unfold ChainView.findBlockByHeight at h
  obtain ⟨e0, -, h⟩ := exceptBind_ok.mp h
  obtain ⟨e1, -, h⟩ := exceptBind_ok.mp h
  obtain ⟨e2, -, h⟩ := exceptBind_ok.mp h
  obtain ⟨rfl, rfl⟩ := Prod.mk.inj (Except.ok.inj h)
  rfl

theorem findBlockByHeight_spec (h : ViewInv env genesis s tip) {nHeight : Nat}
    (hle : (nHeight : Int) ≤ s.node.nBestHeight) :
    ∃ e s', s.findBlockByHeight nHeight = .ok (e, s') ∧ ChainEntry s.node.mapBlockIndex tip e ∧
      e.nHeight = nHeight ∧ ViewInv env genesis s' tip := by
  have htree := h.best.chainTip.tree
  have hmem := h.best.chainTip.mem
  have hchain : nHeight ≤ heightOf s.node.mapBlockIndex tip := by
    have := h.best.height
    omega
  obtain ⟨e0, hstart, he0⟩ := searchStart_spec h nHeight
  obtain ⟨e1, hdown, he1, hle1, -⟩ := walkDown_spec htree (e0.nHeight + 1) he0 (Nat.lt_succ_self _)
  obtain ⟨e2, hup, he2, hheight⟩ := walkUp_spec htree hmem h.best.chainTip.follows hchain
    ((nHeight - e1.nHeight : Int).toNat + 1) he1 hle1 (by omega)
  refine ⟨e2, { s with pblockindexFBBHLast := some e2.hashBlock }, ?_, he2, hheight, h.best, h.started, ?_⟩
  · unfold ChainView.findBlockByHeight
    simp only [hstart, hdown, hup, bind, Except.bind]
    rfl
  · intro b hb
    obtain rfl := Option.some.inj hb
    exact he2.ancestor

/-! ### The arrival of a block -/

/-- `SetBestChain` sets `pindexGenesisBlock` only while it is null. -/
theorem pindexGenesisBlock_setBestChain (block : CBlock) {pindexNew : CBlockIndex}
    (hstarted : node.pindexGenesisBlock ≠ none) (hkey : HashKeyed node.mapBlockIndex)
    (hentry : node.mapBlockIndex pindexNew.hashBlock = some pindexNew) :
    (nodeOf (setBestChain env ctx node block pindexNew)).pindexGenesisBlock = node.pindexGenesisBlock := by
  have hnot : ¬(node.pindexGenesisBlock = none ∧ env.getBlockHash block = env.hashGenesisBlock) :=
    fun h => hstarted h.1
  have hinner := globals_setBestChainInner env ctx node.begun block hentry
  have hswitch := globals_switchBestChain env ctx node.begun hkey pindexNew
  simp only [setBestChain]
  rw [if_neg hnot]
  split_ifs
  · cases hset : setBestChainInner env ctx node.begun block pindexNew with
    | error e =>
      rw [hset] at hinner
      exact congrArg Prod.fst hinner
    | ok node' =>
      rw [hset] at hinner
      exact congrArg Prod.fst hinner
  · cases hset : switchBestChain env ctx node.begun pindexNew with
    | error e =>
      rw [hset] at hswitch
      exact congrArg Prod.fst hswitch
    | ok node' =>
      rw [hset] at hswitch
      exact congrArg Prod.fst hswitch

/-- A call that does not reach the end of `SetBestChain` leaves the globals alone, and no call changes
`pindexGenesisBlock`. -/
theorem add_globals {a : Arrival} (h : BestInv env genesis node tip) (hvalid : a.Valid env node) :
    (setsBestChain env a.ctx node a.block a.nFile a.nBlockPos a.hashProof = false →
      (a.add env node).globals = node.globals) ∧
    (a.add env node).pindexGenesisBlock = node.pindexGenesisBlock := by
  rcases Arrival.add_cases hvalid with ⟨hadd, -⟩ | ⟨hadd, -⟩
    | ⟨pindexNew, hnew, hfresh, hhash, -, hentry, hadd⟩
  · rw [hadd]
    exact ⟨fun _ => rfl, rfl⟩
  · rw [hadd]
    exact ⟨fun _ => rfl, rfl⟩
  · have hinsert := h.insert hvalid hnew hfresh
    rw [hhash] at hfresh
    unfold setsBestChain
    simp only [hnew, hfresh, Option.isNone_none, Bool.true_and]
    rw [hadd]
    split_ifs with htrust
    · rw [decide_eq_true htrust, Bool.true_and]
      refine ⟨fun hsets => ?_, ?_⟩
      · cases hset : setBestChain env a.ctx (insertBlockIndex node pindexNew) a.block pindexNew with
        | error e =>
          exact (globals_setBestChain env a.ctx _ a.block pindexNew hinsert.chainTip.tree.hash hentry).1 e hset
        | ok node' =>
          rw [hset] at hsets
          cases hsets
      · exact pindexGenesisBlock_setBestChain a.block hinsert.started hinsert.chainTip.tree.hash hentry
    · exact ⟨fun _ => rfl, rfl⟩

def ChainView.add (env : Env) (s : ChainView) (a : Arrival) : ChainView :=
  s.addToBlockIndex env a.ctx a.block a.nFile a.nBlockPos a.hashProof

theorem ViewInv.add {s : ChainView} {a : Arrival} (h : ViewInv env genesis s tip) (hvalid : a.Valid env s.node)
    (hpostponed : a.postponedConnect env s.node = true) : ∃ tip', ViewInv env genesis (s.add env a) tip' := by
  obtain ⟨tip', hbest⟩ := addStep_agree h.best hvalid hpostponed
  obtain ⟨hglobals, hgenesis⟩ := add_globals h.best hvalid
  refine ⟨tip', hbest, hgenesis.trans h.started, fun b hb => ?_⟩
  change (if _ then none else s.pblockindexFBBHLast) = some b at hb
  split_ifs at hb with hsets
  -- the best block is the same, and its chain too
  have hsame := hglobals (Bool.not_eq_true _ ▸ hsets)
  simp only [Node.globals, Prod.mk.injEq] at hsame
  have htip : some tip' = some tip := by
    rw [← hbest.best, ← h.best.best]
    exact hsame.2.1
  obtain rfl := Option.some.inj htip
  have hindexed : BestIndexed genesis s.node tip' :=
    ⟨h.best.chainTip.tree, h.best.chainTip.mem, h.best.best, h.best.height⟩
  obtain ⟨hgrown, -⟩ := add_bestIndexed hindexed hvalid
  exact (hgrown.ancestor_iff h.best.chainTip.tree h.best.chainTip.mem).mpr (h.last b hb)

/-! ### Runs -/

/-- A step: a block arrives for which `P` holds, or `FindBlockByHeight` returns a block. -/
inductive ViewStep (env : Env) (P : Node → Arrival → Prop) : ChainView → ChainView → Prop
  | add {s : ChainView} {a : Arrival} (hvalid : a.Valid env s.node) (hP : P s.node a) :
      ViewStep env P s (s.add env a)
  | find {s s' : ChainView} {nHeight : Nat} {e : CBlockIndex} (hle : (nHeight : Int) ≤ s.node.nBestHeight)
      (hfind : s.findBlockByHeight nHeight = .ok (e, s')) : ViewStep env P s s'

/-- For each height up to `nBestHeight`, `FindBlockByHeight` returns the block of the main chain. -/
def FindsMainChain (s : ChainView) : Prop :=
  ∃ tip, s.node.pindexBest = some tip ∧ ∀ nHeight : Nat, (nHeight : Int) ≤ s.node.nBestHeight →
    ∃ e s', s.findBlockByHeight nHeight = .ok (e, s') ∧ s.node.mapBlockIndex e.hashBlock = some e ∧
      e.nHeight = nHeight ∧ Ancestor (parentOf s.node.mapBlockIndex) tip e.hashBlock ∧
      isInMainChain s.node e = true

theorem ViewInv.findsMainChain (h : ViewInv env genesis s tip) : FindsMainChain s := by
  refine ⟨tip, h.best.best, fun nHeight hle => ?_⟩
  obtain ⟨e, s', hfind, he, hheight, -⟩ := findBlockByHeight_spec h hle
  refine ⟨e, s', hfind, he.entry, hheight, he.ancestor, ?_⟩
  have hiff := (h.best.chainTip.follows.ancestor_iff e.hashBlock).mpr he.ancestor
  rw [nextOf_eq he.entry] at hiff
  rw [isInMainChain, h.best.best]
  simpa [Option.ne_none_iff_isSome] using hiff

/-- **Every run** in which each block that is postponed is connected when its turn comes. -/
theorem findBlock_run {start s : ChainView} (hstart : OnlyGenesis genesis start.node)
    (hlast : start.pblockindexFBBHLast = none)
    (hrun : ReflTransGen (ViewStep env fun node a => a.postponedConnect env node = true) start s) :
    FindsMainChain s := by
  suffices hinv : ∃ tip, ViewInv env genesis s tip by
    obtain ⟨tip, hinv⟩ := hinv
    exact hinv.findsMainChain
  induction hrun with
  | refl =>
    refine ⟨genesis, bestInv_onlyGenesis hstart, hstart.started, fun b hb => ?_⟩
    rw [hlast] at hb
    cases hb
  | tail _ hstep ih =>
    obtain ⟨tip, hinv⟩ := ih
    cases hstep with
    | add hvalid hpostponed => exact hinv.add hvalid hpostponed
    | find hle hfind =>
      obtain ⟨e', s'', hfind', -, -, hinv'⟩ := findBlockByHeight_spec hinv hle
      rw [hfind] at hfind'
      obtain ⟨rfl, rfl⟩ := Prod.mk.inj (Except.ok.inj hfind')
      exact ⟨tip, hinv'⟩

/-! ### A run with three blocks that are not connected -/

/-- A competing branch of five blocks, with hashes 190, 180, 175, 170 and 165.  The time of the first one
is the latest; the coinbase of the third one claims too much. -/
def longBranch : List CBlock :=
  [rewardBlock 105 90 (rewardTx 10 0x51 (10000 * coin)), rewardBlock 190 80 (rewardTx 11 0x52 (10000 * coin)),
    rewardBlock 180 75 (rewardTx 12 0x53 (20000 * coin)), rewardBlock 175 70 (rewardTx 13 0x54 (10000 * coin)),
    rewardBlock 170 65 (rewardTx 14 0x55 (10000 * coin))]

def longEnv : Env :=
  Env.permissive sampleTxHash sampleBlockHash (fun _ _ _ _ _ _ => true)
    (BlockFiles.ofBlocks (tipBlock :: longBranch))

/-- The adjusted time goes back before the second block of the branch, and forward before the last one. -/
def longArrivals : List Arrival :=
  List.zipWith (fun nAdjustedTime (block, i) => arrival nAdjustedTime (i + 1) block) [60, 60, 50, 50, 50, 60]
    (tipBlock :: longBranch).zipIdx

def longView (n : Nat) : ChainView :=
  (longArrivals.take n).foldl (.add longEnv) ⟨genesisNode, none⟩

theorem longStep {P : Node → Arrival → Prop} (n : Nat) {a : Arrival} (ha : longArrivals[n]? = some a)
    (hvalid : a.Valid longEnv (longView n).node) (hP : P (longView n).node a) :
    ViewStep longEnv P (longView n) (longView (n + 1)) := by
  have hnext : longView (n + 1) = (longView n).add longEnv a := by
    rw [longView, List.take_add_one, ha, List.foldl_append]
    rfl
  rw [hnext]
  exact .add hvalid hP

/-- The best block is at height 5, and the blocks from height 3 on are not connected. -/
theorem longView_six : (longView 6).node.nBestHeight = 5 ∧ (longView 6).node.pindexBest = some 165 ∧
    (longView 6).node.txdb.readHashBestChain = some 180 := by
  decide

/-- The block at height 2 has been found before. -/
def queriedView : ChainView := { longView 6 with pblockindexFBBHLast := some 180 }

theorem viewStep_queriedView {P : Node → Arrival → Prop} : ViewStep longEnv P (longView 6) queriedView := by
  have hfound : ((longView 6).findBlockByHeight 2).toOption.map (fun r => r.1.hashBlock) = some 180 := by
    decide
  obtain ⟨⟨e, s'⟩, hfind, hhash⟩ := Option.map_eq_some_iff.mp hfound
  have hok : (longView 6).findBlockByHeight 2 = .ok (e, s') := by
    cases hresult : (longView 6).findBlockByHeight 2 with
    | error fault =>
      rw [hresult] at hfind
      cases hfind
    | ok r =>
      rw [hresult] at hfind
      rw [Option.some.inj hfind]
  have hstate : s' = queriedView := by
    rw [findBlockByHeight_state hok, hhash]
    rfl
  rw [← hstate]
  have hle : ((2 : Nat) : Int) ≤ (longView 6).node.nBestHeight := by
    rw [longView_six.1]
    decide
  exact .find hle hok

/-- **A null pointer is followed.**  When the last block of the branch arrives, `SetBestChain` switches to
the second one, fails to connect the third one and makes the last one the best block all the same.  From
the block at height 2 the search for height 3 goes up. -/
theorem findBlock_run_fails : OnlyGenesis 105 genesisNode ∧
    ReflTransGen (ViewStep longEnv fun node a => a.accepted longEnv node = true) ⟨genesisNode, none⟩
      queriedView ∧
    queriedView.node.nBestHeight = 5 ∧ queriedView.findBlockByHeight 3 = .error .nullPointer ∧
    ¬FindsMainChain queriedView := by
  have hfault : queriedView.findBlockByHeight 3 = .error .nullPointer := by
    have hnull : (match queriedView.findBlockByHeight 3 with
        | .ok _ => false
        | .error fault => decide (fault = .nullPointer)) = true := by
      decide
    cases hresult : queriedView.findBlockByHeight 3 with
    | ok r =>
      rw [hresult] at hnull
      cases hnull
    | error fault =>
      rw [hresult] at hnull
      rw [of_decide_eq_true hnull]
  refine ⟨onlyGenesis_genesisNode, ?_, longView_six.1, hfault, ?_⟩
  · refine ReflTransGen.tail (b := longView 6) ?_ viewStep_queriedView
    refine (((((ReflTransGen.single (longStep 0 rfl ⟨?_, ?_⟩ ?_)).tail (longStep 1 rfl ⟨?_, ?_⟩ ?_)).tail
      (longStep 2 rfl ⟨?_, ?_⟩ ?_)).tail (longStep 3 rfl ⟨?_, ?_⟩ ?_)).tail
      (longStep 4 rfl ⟨?_, ?_⟩ ?_)).tail (longStep 5 rfl ⟨?_, ?_⟩ ?_) <;> decide
  · rintro ⟨tip, -, hall⟩
    obtain ⟨e, s', hfind, -⟩ := hall 3 (by rw [show queriedView.node.nBestHeight = 5 from longView_six.1]; decide)
    rw [Nat.cast_ofNat, hfault] at hfind
    cases hfind

/-- The first three arrivals postpone nothing. -/
theorem findBlock_run_three : FindsMainChain (longView 3) := by
  have hrun : ReflTransGen (ViewStep longEnv fun node a => a.postponedConnect longEnv node = true)
      ⟨genesisNode, none⟩ (longView 3) := by
    refine ((ReflTransGen.single (longStep 0 rfl ⟨?_, ?_⟩ ?_)).tail (longStep 1 rfl ⟨?_, ?_⟩ ?_)).tail
      (longStep 2 rfl ⟨?_, ?_⟩ ?_) <;> decide
  exact findBlock_run onlyGenesis_genesisNode rfl hrun

end Sphinx
