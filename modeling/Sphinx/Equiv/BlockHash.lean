import Sphinx.Equiv.MainChain
import Sphinx.Equiv.IxQuorum

/-!
# The hash of a reference block

`GetBlockHash` remembers what it has answered in `mapCacheBlockHashes`, and nothing takes an answer out
of this map again.

* `getBlockHash_follows`: while the map holds blocks of the main chain only, the answers are right;
* `getBlockHash_run`: this lasts as long as no reorganisation disconnects a block that is in the map;
* `getBlockHash_reorganized`: a run in which this happens.
-/

namespace Sphinx

open ParentTree Relation

variable {env : Env} {genesis tip : Uint256} {node node' : Node} {m : BlockMap}
  {mapCacheBlockHashes : StdMap Int Uint256}
variable {start : Node}

/-! ### The main chain -/

/-- The block with the hash `hash` is at the height `nHeight` of the main chain. -/
def OnMainChain (node : Node) (nHeight : Int) (hash : Uint256) : Prop :=
  ∃ tip, node.pindexBest = some tip ∧ Ancestor (parentOf node.mapBlockIndex) tip hash ∧
    (heightOf node.mapBlockIndex hash : Int) = nHeight

theorem OnMainChain.unique (h : BestIndexed genesis node tip) {nHeight : Int} {hash hash' : Uint256}
    (hon : OnMainChain node nHeight hash) (hon' : OnMainChain node nHeight hash') : hash = hash' := by
  obtain ⟨t, ht, hanc, hheight⟩ := hon
  obtain ⟨t', ht', hanc', hheight'⟩ := hon'
  obtain rfl : t = tip := Option.some.inj (ht.symm.trans h.best)
  obtain rfl : t' = t := Option.some.inj (ht'.symm.trans ht)
  have hle : heightOf node.mapBlockIndex hash = heightOf node.mapBlockIndex hash' := by omega
  have hmem := h.tree.graded.mem_of_ancestor h.mem hanc
  have hmem' := h.tree.graded.mem_of_ancestor h.mem hanc'
  have hright : Relator.RightUnique fun a b => parentOf node.mapBlockIndex a = some b :=
    fun _ _ _ hb hc => Option.some.inj (hb.symm.trans hc)
  rcases ReflTransGen.total_of_right_unique hright hanc hanc' with hab | hba
  · exact h.tree.graded.eq_of_ancestor hmem hab hle.le
  · exact (h.tree.graded.eq_of_ancestor hmem' hba hle.ge).symm

theorem readBlocksAgo_spec (ht : IndexTree m genesis) : ∀ (nBlocksAgo : Nat) {e : CBlockIndex}
    {hash : Uint256}, m e.hashBlock = some e → readBlocksAgo m nBlocksAgo e = some hash →
      Ancestor (parentOf m) e.hashBlock hash ∧ heightOf m hash + nBlocksAgo = e.nHeight := by
  intro nBlocksAgo
  induction nBlocksAgo with
  | zero =>
    intro e hash he hread
    unfold readBlocksAgo at hread
    split_ifs at hread
    obtain rfl := Option.some.inj hread
    exact ⟨ancestor_refl _, by rw [heightOf_eq he, Nat.add_zero]⟩
  | succ nBlocksAgo ih =>
    intro e hash he hread
    unfold readBlocksAgo at hread
    split_ifs at hread with hzero
    obtain ⟨entry, hpprev, hentry, hparent, hheight⟩ := ht.exists_pprev he (Nat.pos_of_ne_zero hzero)
    rw [hpprev, Option.bind_some] at hread
    obtain ⟨hanc, hsum⟩ := ih hentry hread
    exact ⟨hanc.of_parent hparent, by omega⟩

theorem exists_readBlocksAgo (ht : IndexTree m genesis) : ∀ (nBlocksAgo : Nat) {e : CBlockIndex},
    m e.hashBlock = some e → nBlocksAgo < e.nHeight → ∃ hash, readBlocksAgo m nBlocksAgo e = some hash := by
  intro nBlocksAgo
  induction nBlocksAgo with
  | zero =>
    intro e _ hpos
    exact ⟨e.hashBlock, if_neg hpos.ne'⟩
  | succ nBlocksAgo ih =>
    intro e he hlt
    obtain ⟨entry, hpprev, hentry, -, hheight⟩ := ht.exists_pprev he (by omega)
    obtain ⟨hash, hread⟩ := ih hentry (by omega)
    refine ⟨hash, ?_⟩
    rw [readBlocksAgo, if_neg (by omega), hpprev, Option.bind_some, hread]

/-! ### One call -/

/-- What is in the map for a positive height is on the main chain. -/
def TableOnChain (node : Node) (mapCacheBlockHashes : StdMap Int Uint256) : Prop :=
  ∀ nBlockHeight hash, 0 < nBlockHeight → mapCacheBlockHashes.lookup nBlockHeight = some hash →
    OnMainChain node (nBlockHeight - 1) hash

/-- The hash of the block below, for every height that the main chain has reached. -/
def FollowsChain (node : Node) (mapCacheBlockHashes : StdMap Int Uint256) : Prop :=
  ∀ nBlockHeight, 2 ≤ nBlockHeight → nBlockHeight ≤ node.nBestHeight + 1 →
    ∃ hash, (getBlockHash node mapCacheBlockHashes nBlockHeight).1 = some hash ∧
      OnMainChain node (nBlockHeight - 1) hash

theorem BestIndexed.exists_best (h : BestIndexed genesis node tip) : ∃ pindexBest,
    node.pindexBest.bind node.mapBlockIndex = some pindexBest ∧ pindexBest.hashBlock = tip ∧
      node.mapBlockIndex pindexBest.hashBlock = some pindexBest ∧
      node.nBestHeight = pindexBest.nHeight := by
  obtain ⟨e, he⟩ := exists_of_mem_indexed h.mem
  obtain rfl := h.tree.hash he
  exact ⟨e, by rw [h.best, Option.bind_some, he], rfl, he, by rw [h.height, heightOf_eq he]⟩

theorem getBlockHash_follows (h : BestIndexed genesis node tip)
    (htable : TableOnChain node mapCacheBlockHashes) : FollowsChain node mapCacheBlockHashes := by
  intro nBlockHeight htwo hle
  obtain ⟨pindexBest, hbest, htip, hentry, hheight⟩ := h.exists_best
  rw [hheight] at hle
  have hne : nBlockHeight ≠ 0 := by omega
  have hpos : 0 < nBlockHeight := by omega
  have hnot : ¬(pindexBest.nHeight = 0 ∨ (pindexBest.nHeight : Int) + 1 < nBlockHeight) := by omega
  simp only [getBlockHash, hbest]
  rw [if_neg hne, if_neg hnot, if_pos hpos]
  cases hcached : mapCacheBlockHashes.lookup nBlockHeight with
  | some hash => exact ⟨hash, rfl, htable nBlockHeight hash hpos hcached⟩
  | none =>
    obtain ⟨hash, hread⟩ := exists_readBlocksAgo h.tree
      ((pindexBest.nHeight : Int) + 1 - nBlockHeight).toNat hentry (by omega)
    obtain ⟨hanc, hsum⟩ := readBlocksAgo_spec h.tree _ hentry hread
    refine ⟨hash, by rw [hread], tip, h.best, htip ▸ hanc, by omega⟩

theorem TableOnChain.getBlockHash (htable : TableOnChain node mapCacheBlockHashes)
    (h : BestIndexed genesis node tip) (nBlockHeight : Int) :
    TableOnChain node (getBlockHash node mapCacheBlockHashes nBlockHeight).2 := by
  intro k hash hpos hlookup
  rcases getBlockHash_cases node mapCacheBlockHashes nBlockHeight with
    hnone | ⟨pindexBest, height, hash', hbest, -, ⟨-, heq⟩ | ⟨n, hread, hn, heq⟩⟩
  · rw [hnone] at hlookup
    exact htable k hash hpos hlookup
  · rw [heq] at hlookup
    exact htable k hash hpos hlookup
  · rw [heq] at hlookup
    by_cases hk : k = height
    · rw [hk, AList.lookup_insert, Option.some.injEq] at hlookup
      obtain ⟨pindexBest', hbest', htip, hentry, -⟩ := h.exists_best
      obtain rfl : pindexBest' = pindexBest := Option.some.inj (hbest'.symm.trans hbest)
      obtain ⟨hanc, hsum⟩ := readBlocksAgo_spec h.tree n hentry hread
      have hn := hn (hk ▸ hpos)
      refine ⟨tip, h.best, hlookup ▸ htip ▸ hanc, ?_⟩
      rw [← hlookup]
      omega
    · rw [AList.lookup_insert_ne hk] at hlookup
      exact htable k hash hpos hlookup

/-- Nothing is taken out of the map or replaced, and an answer is in it afterwards. -/
theorem getBlockHash_table (node : Node) (mapCacheBlockHashes : StdMap Int Uint256) (nBlockHeight : Int) :
    (∀ {k hash}, mapCacheBlockHashes.lookup k = some hash →
      (getBlockHash node mapCacheBlockHashes nBlockHeight).2.lookup k = some hash) ∧
    ∀ {hash}, nBlockHeight ≠ 0 → (getBlockHash node mapCacheBlockHashes nBlockHeight).1 = some hash →
      (getBlockHash node mapCacheBlockHashes nBlockHeight).2.lookup nBlockHeight = some hash := by
  unfold getBlockHash
  cases hbest : node.pindexBest.bind node.mapBlockIndex with
  | none => exact ⟨fun h => h, fun _ h => nomatch h⟩
  | some pindexBest =>
    simp only
    generalize hheight : (if nBlockHeight = 0 then (pindexBest.nHeight : Int) else nBlockHeight) = height
    have hsame : nBlockHeight ≠ 0 → height = nBlockHeight := fun hne => by rw [← hheight, if_neg hne]
    cases hcached : mapCacheBlockHashes.lookup height with
    | some hash =>
      exact ⟨fun h => h, fun hne h => by rw [← hsame hne, hcached, ← h]⟩
    | none =>
      simp only
      by_cases hhigh : pindexBest.nHeight = 0 ∨ (pindexBest.nHeight : Int) + 1 < height
      · rw [if_pos hhigh]
        exact ⟨fun h => h, fun _ h => nomatch h⟩
      · rw [if_neg hhigh]
        split
        · exact ⟨fun h => h, fun _ h => nomatch h⟩
        · next hash _ =>
          refine ⟨fun {k _} h => ?_, fun hne h => ?_⟩
          · rwa [AList.lookup_insert_ne]
            rintro rfl
            rw [hcached] at h
            cases h
          · rw [hsame hne, AList.lookup_insert, ← h]

/-! ### Runs -/

/-- The chain state, and the map of `GetBlockHash`. -/
structure HashState where
  node : Node
  mapCacheBlockHashes : StdMap Int Uint256 := ∅

inductive HashEvent
  | block (a : Arrival)
  | getBlockHash (nBlockHeight : Int)

def HashState.step (env : Env) (s : HashState) : HashEvent → Option HashState
  | .block a => some { s with node := a.add env s.node }
  | .getBlockHash nBlockHeight => some { s with
      mapCacheBlockHashes := (getBlockHash s.node s.mapCacheBlockHashes nBlockHeight).2 }

/-- The block comes after its parent and can be read back from disk. -/
def HashEvent.Valid (env : Env) (s : HashState) : HashEvent → Prop
  | .block a => a.Valid env s.node
  | .getBlockHash _ => True

/-- No block is disconnected that is in the map. -/
def HashEvent.KeepsCached (env : Env) (s : HashState) : HashEvent → Prop
  | .block a => ∀ nHeight hash, OnMainChain s.node nHeight hash →
      ¬OnMainChain (a.add env s.node) nHeight hash → s.mapCacheBlockHashes.lookup (nHeight + 1) = none
  | .getBlockHash _ => True

def HashState.Inv (genesis : Uint256) (s : HashState) : Prop :=
  (∃ tip, BestIndexed genesis s.node tip) ∧ TableOnChain s.node s.mapCacheBlockHashes

theorem HashState.Inv.ask {s : HashState} (h : s.Inv genesis) (nBlockHeight : Int) : HashState.Inv genesis
    ⟨s.node, (getBlockHash s.node s.mapCacheBlockHashes nBlockHeight).2⟩ := by
  obtain ⟨⟨tip, hbest⟩, htable⟩ := h
  exact ⟨⟨tip, hbest⟩, htable.getBlockHash hbest nBlockHeight⟩

theorem HashState.Inv.step {s s' : HashState} {e : HashEvent} (h : s.Inv genesis)
    (hQ : e.Valid env s ∧ e.KeepsCached env s) (hstep : s.step env e = some s') : s'.Inv genesis := by
  obtain ⟨hvalid, hkeeps⟩ := hQ
  cases e with
  | getBlockHash nBlockHeight =>
    obtain rfl := Option.some.inj hstep
    exact h.ask nBlockHeight
  | block a =>
    obtain rfl := Option.some.inj hstep
    obtain ⟨⟨tip, hbest⟩, htable⟩ := h
    refine ⟨(add_bestIndexed hbest hvalid).2, fun nBlockHeight hash hpos hlookup => ?_⟩
    by_contra hoff
    have hnone := hkeeps (nBlockHeight - 1) hash (htable nBlockHeight hash hpos hlookup) hoff
    rw [sub_add_cancel] at hnone
    exact absurd (hnone.symm.trans hlookup) (Option.some_ne_none hash).symm

/-- `GetBlockHash` gives the hashes of the main chain. -/
def HashState.Follows (s : HashState) : Prop := FollowsChain s.node s.mapCacheBlockHashes

/-- The two nodes have the same main chain. -/
def SameMainChain (node node' : Node) : Prop :=
  ∀ nHeight hash, OnMainChain node nHeight hash ↔ OnMainChain node' nHeight hash

/-- The two nodes give the same answer for every height that both have reached. -/
def SameAnswers (s s' : HashState) : Prop :=
  ∀ nBlockHeight, 2 ≤ nBlockHeight → nBlockHeight ≤ s.node.nBestHeight + 1 →
    nBlockHeight ≤ s'.node.nBestHeight + 1 →
    (getBlockHash s.node s.mapCacheBlockHashes nBlockHeight).1 =
      (getBlockHash s'.node s'.mapCacheBlockHashes nBlockHeight).1

/-- A run from the genesis block in which no step disconnects a block that is in the map. -/
structure HashRun (env : Env) (genesis : Uint256) (start : Node) (es : List HashEvent) : Prop where
  onlyGenesis : OnlyGenesis genesis start
  valid : Run.EveryStep (HashState.step env) (fun s e => e.Valid env s) es ⟨start, ∅⟩
  keeps : Run.EveryStep (HashState.step env) (fun s e => e.KeepsCached env s) es ⟨start, ∅⟩

variable {es : List HashEvent}

theorem HashRun.inv (h : HashRun env genesis start es) :
    HashState.Inv genesis ⟨start, ∅⟩ :=
  ⟨⟨genesis, bestIndexed_onlyGenesis h.onlyGenesis⟩, fun nBlockHeight hash _ hlookup => by
    rw [AList.lookup_empty] at hlookup
    cases hlookup⟩

theorem HashRun.everyStep (h : HashRun env genesis start es) :
    Run.EveryStep (HashState.step env) (fun s e => e.Valid env s ∧ e.KeepsCached env s) es ⟨start, ∅⟩ :=
  Run.everyStep_and es h.valid h.keeps

theorem HashRun.end_inv {s : HashState} (h : HashRun env genesis start es)
    (hrun : es.foldlM (HashState.step env) ⟨start, ∅⟩ = some s) :
    s.Inv genesis :=
  Run.Along.last (Run.along_of_everyStep (fun hinv => hinv) HashState.Inv.step es h.inv h.everyStep) hrun

theorem sameAnswers_of_inv {s s' : HashState} (h : s.Inv genesis) (h' : s'.Inv genesis)
    (hsame : SameMainChain s.node s'.node) : SameAnswers s s' := by
  intro nBlockHeight htwo hle hle'
  obtain ⟨⟨tip, hbest⟩, htable⟩ := h
  obtain ⟨⟨tip', hbest'⟩, htable'⟩ := h'
  obtain ⟨hash, hanswer, hon⟩ := getBlockHash_follows hbest htable nBlockHeight htwo hle
  obtain ⟨hash', hanswer', hon'⟩ := getBlockHash_follows hbest' htable' nBlockHeight htwo hle'
  rw [hanswer, hanswer', hon.unique hbest ((hsame _ _).mpr hon')]

/-- **The reference blocks follow the chain** in every run in which no block is disconnected whose hash
`GetBlockHash` has put into its map, and nodes with the same main chain give the same answers after such
runs. -/
theorem getBlockHash_run {start : Node} {es : List HashEvent} (h : HashRun env genesis start es) :
    Run.Along (HashState.step env) HashState.Follows es ⟨start, ∅⟩ ∧
    ∀ start' es' s s', HashRun env genesis start' es' →
      es.foldlM (HashState.step env) ⟨start, ∅⟩ = some s →
      es'.foldlM (HashState.step env) ⟨start', ∅⟩ = some s' →
      SameMainChain s.node s'.node → SameAnswers s s' := by
  constructor
  · refine Run.along_of_everyStep (fun hinv => ?_) HashState.Inv.step es h.inv h.everyStep
    obtain ⟨⟨tip, hbest⟩, htable⟩ := hinv
    exact getBlockHash_follows hbest htable
  · exact fun start' es' s s' h' hrun hrun' => sameAnswers_of_inv (h.end_inv hrun) (h'.end_inv hrun')

/-! ### A reorganisation -/

def forkArrivals : List Arrival :=
  ((tipBlock :: branchBlocks).take 3).zipIdx.map fun (block, i) => arrival 60 (i + 1) block

/-- `GetBlockHash(2)` is called before the other branch takes over. -/
def askedBefore : List HashEvent :=
  (forkArrivals.take 1).map .block ++ [.getBlockHash 2] ++ (forkArrivals.drop 1).map .block

/-- `GetBlockHash(2)` is called afterwards only. -/
def askedAfter : List HashEvent := forkArrivals.map .block ++ [.getBlockHash 2]

def hashState (es : List HashEvent) (n : Nat) : HashState :=
  ((es.take n).foldlM (HashState.step branchEnv) ⟨genesisNode, ∅⟩).getD ⟨genesisNode, ∅⟩

theorem valid_askedBefore : Run.EveryStep (HashState.step branchEnv) (fun s e => e.Valid branchEnv s)
    askedBefore ⟨genesisNode, ∅⟩ := by
  refine ⟨⟨by decide, by decide⟩, fun s1 h1 => ?_⟩
  obtain rfl := Option.some.inj h1
  refine ⟨trivial, fun s2 h2 => ?_⟩
  obtain rfl := Option.some.inj h2
  refine ⟨⟨by decide, by decide⟩, fun s3 h3 => ?_⟩
  obtain rfl := Option.some.inj h3
  exact ⟨⟨by decide, by decide⟩, fun _ _ => trivial⟩

theorem hashRun_askedAfter : HashRun branchEnv 105 genesisNode askedAfter := by
  refine ⟨onlyGenesis_genesisNode, ?_, ?_⟩
  · refine ⟨⟨by decide, by decide⟩, fun s1 h1 => ?_⟩
    obtain rfl := Option.some.inj h1
    refine ⟨⟨by decide, by decide⟩, fun s2 h2 => ?_⟩
    obtain rfl := Option.some.inj h2
    refine ⟨⟨by decide, by decide⟩, fun s3 h3 => ?_⟩
    exact ⟨trivial, fun _ _ => trivial⟩
  · -- the map is empty while blocks arrive
    refine ⟨fun _ _ _ _ => rfl, fun s1 h1 => ?_⟩
    obtain rfl := Option.some.inj h1
    refine ⟨fun _ _ _ _ => rfl, fun s2 h2 => ?_⟩
    obtain rfl := Option.some.inj h2
    refine ⟨fun _ _ _ _ => rfl, fun s3 h3 => ?_⟩
    exact ⟨trivial, fun _ _ => trivial⟩

theorem getBlockHash_run_askedAfter : (hashState askedAfter 4).Follows :=
  (getBlockHash_run hashRun_askedAfter).1.last rfl

/-- **An old answer.**  The block with hash 120 is disconnected, and `GetBlockHash(2)` still gives it. -/
theorem getBlockHash_reorganized :
    OnlyGenesis 105 genesisNode ∧
    Run.EveryStep (HashState.step branchEnv) (fun s e => e.Valid branchEnv s) askedBefore ⟨genesisNode, ∅⟩ ∧
    askedBefore.foldlM (HashState.step branchEnv) ⟨genesisNode, ∅⟩ = some (hashState askedBefore 4) ∧
    ¬(hashState askedBefore 4).Follows := by
  refine ⟨onlyGenesis_genesisNode, valid_askedBefore, rfl, fun h => ?_⟩
  obtain ⟨hash, hanswer, tip, hbest, hanc, -⟩ := h 2 (by decide) (by decide)
  have h120 : (getBlockHash (hashState askedBefore 4).node (hashState askedBefore 4).mapCacheBlockHashes 2).1
      = some 120 := by decide
  have h180 : (hashState askedBefore 4).node.pindexBest = some 180 := by decide
  obtain rfl : 120 = hash := Option.some.inj (h120.symm.trans hanswer)
  obtain rfl : 180 = tip := Option.some.inj (h180.symm.trans hbest)
  -- the chain of the block 180
  have h190 : parentOf (hashState askedBefore 4).node.mapBlockIndex 180 = some 190 := by decide
  have h105 : parentOf (hashState askedBefore 4).node.mapBlockIndex 190 = some 105 := by decide
  have hroot : parentOf (hashState askedBefore 4).node.mapBlockIndex 105 = none := by decide
  rcases (ancestor_iff h190).mp hanc with heq | hanc
  · exact absurd heq (by decide)
  rcases (ancestor_iff h105).mp hanc with heq | hanc
  · exact absurd heq (by decide)
  exact absurd (eq_of_ancestor_root hroot hanc) (by decide)

end Sphinx
