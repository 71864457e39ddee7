import Sphinx.Equiv.BestChain

/-!
# The chain of the best block

`pindexBest` and the `pprev` pointers below it, after any arrivals of blocks, whether or not the blocks
that `SetBestChain` postpones can be connected (`BestChain` has what else agrees with them then).

* `setBestChain_spec`: an error leaves the best block as it was;
* `add_bestIndexed`: a block that arrives becomes the best one or does not, and the entries that were
  there keep their place in the tree (`Grown`);
* `indexRun_trustOk`: no block has more trust than the best chain, or the best invalid one.
-/

namespace Sphinx

open ParentTree Relation

variable {env : Env} {ctx : Uint256 → Ctx} {genesis tip : Uint256} {node node' : Node}

/-! ### The globals after `SetBestChain` -/

section

variable (env) (ctx)

/-- `SetBestChain` makes the block the best one, or it leaves the globals alone and its chain counts as
invalid. -/
theorem setBestChain_spec (node : Node) (block : CBlock)
    (pindexNew : CBlockIndex) (hkey : HashKeyed node.mapBlockIndex)
    (hentry : node.mapBlockIndex pindexNew.hashBlock = some pindexNew) :
    (∀ e, setBestChain env ctx node block pindexNew = .error e → Aside node e.2 ∧
      (node.pindexBest.bind node.mapBlockIndex ≠ none → pindexNew.nChainTrust ≤ e.2.nBestInvalidTrust)) ∧
    ∀ node', setBestChain env ctx node block pindexNew = .ok node' →
      (node'.pindexBest = some pindexNew.hashBlock ∧ node'.nBestHeight = pindexNew.nHeight) ∧
      node'.nBestChainTrust = pindexNew.nChainTrust ∧ node.nBestInvalidTrust ≤ node'.nBestInvalidTrust := by
  unfold setBestChain
  dsimp only
  split_ifs
  · exact ⟨fun e he => (nomatch he), fun node' hok => Except.ok.inj hok ▸ ⟨⟨rfl, rfl⟩, rfl, le_rfl⟩⟩
  · have hinner := aside_setBestChainInner env ctx node.begun block hentry
    cases hset : setBestChainInner env ctx node.begun block
      pindexNew with
    | error e =>
      rw [hset] at hinner
      exact ⟨fun e' he => Except.error.inj he ▸ ⟨hinner.1, fun _ => hinner.2 e rfl⟩,
        fun node' hok => (nomatch hok)⟩
    | ok node1 =>
      rw [hset] at hinner
      exact ⟨fun e he => (nomatch he),
        fun node' hok => Except.ok.inj hok ▸ ⟨⟨rfl, rfl⟩, rfl, hinner.1.2.2⟩⟩
  · have hswitch := aside_switchBestChain env ctx node.begun hkey pindexNew
    cases hset : switchBestChain env ctx node.begun pindexNew with
    | error e =>
      rw [hset] at hswitch
      exact ⟨fun e' he => Except.error.inj he ▸ ⟨hswitch.1, hswitch.2 e rfl⟩,
        fun node' hok => (nomatch hok)⟩
    | ok node1 =>
      rw [hset] at hswitch
      exact ⟨fun e he => (nomatch he),
        fun node' hok => Except.ok.inj hok ▸ ⟨⟨rfl, rfl⟩, rfl, hswitch.1.2.2⟩⟩

theorem globals_setBestChainInner (node : Node) (block : CBlock)
    {pindexNew : CBlockIndex} (hentry : node.mapBlockIndex pindexNew.hashBlock = some pindexNew) :
    (nodeOf (setBestChainInner env ctx node block pindexNew)).globals = node.globals :=
  (aside_setBestChainInner env ctx node block hentry).1.2.1

theorem globals_switchBestChain (node : Node)
    (hkey : HashKeyed node.mapBlockIndex) (pindexNew : CBlockIndex) :
    (nodeOf (switchBestChain env ctx node pindexNew)).globals = node.globals :=
  (aside_switchBestChain env ctx node hkey pindexNew).1.2.1

theorem globals_setBestChain (node : Node) (block : CBlock)
    (pindexNew : CBlockIndex) (hkey : HashKeyed node.mapBlockIndex)
    (hentry : node.mapBlockIndex pindexNew.hashBlock = some pindexNew) :
    (∀ e, setBestChain env ctx node block pindexNew = .error e → e.2.globals = node.globals) ∧
    ∀ node', setBestChain env ctx node block pindexNew = .ok node' →
      node'.pindexBest = some pindexNew.hashBlock ∧ node'.nBestHeight = pindexNew.nHeight := by
  obtain ⟨herror, hok⟩ := setBestChain_spec env ctx node block pindexNew hkey hentry
  exact ⟨fun e he => (herror e he).1.2.1, fun node' he => (hok node' he).1⟩

end

/-! ### Arrivals -/

/-- The index is a tree, and the best block is in it. -/
structure BestIndexed (genesis : Uint256) (node : Node) (tip : Uint256) : Prop where
  tree : IndexTree node.mapBlockIndex genesis
  mem : tip ∈ indexed node.mapBlockIndex
  best : node.pindexBest = some tip
  height : node.nBestHeight = heightOf node.mapBlockIndex tip

/-- Whatever is in the index stays there, with its parent and its height. -/
structure Grown (m m' : BlockMap) : Prop where
  mem : ∀ {h}, h ∈ indexed m → h ∈ indexed m'
  parent : ∀ {h}, h ∈ indexed m → parentOf m' h = parentOf m h
  height : ∀ {h}, h ∈ indexed m → heightOf m' h = heightOf m h

theorem Grown.refl (m : BlockMap) : Grown m m := ⟨fun h => h, fun _ => rfl, fun _ => rfl⟩

theorem Grown.trans {m m' m'' : BlockMap} (h : Grown m m') (h' : Grown m' m'') : Grown m m'' :=
  ⟨fun hh => h'.mem (h.mem hh), fun hh => (h'.parent (h.mem hh)).trans (h.parent hh),
    fun hh => (h'.height (h.mem hh)).trans (h.height hh)⟩

theorem SameTree.grown {m m' : BlockMap} (h : SameTree m' m) : Grown m m' :=
  ⟨h.mem_indexed, fun _ => by rw [h.parentOf_eq], fun _ => by rw [h.heightOf_eq]⟩

theorem grown_insert {m : BlockMap} {e : CBlockIndex} (hfresh : m e.hashBlock = none) :
    Grown m (Function.update m e.hashBlock (some e)) := by
  have hsame : ∀ {h}, h ∈ indexed m → Function.update m e.hashBlock (some e) h = m h := by
    rintro h hh
    obtain ⟨e', he'⟩ := exists_of_mem_indexed hh
    refine Function.update_of_ne ?_ _ _
    rintro rfl
    rw [hfresh] at he'
    cases he'
  refine ⟨fun {h} hh => ?_, fun hh => ?_, fun hh => ?_⟩
  · obtain ⟨e', he'⟩ := exists_of_mem_indexed hh
    exact mem_indexed ((hsame hh).trans he')
  · rw [parentOf, hsame hh, ← parentOf]
  · rw [heightOf, hsame hh, ← heightOf]

theorem Grown.ancestor_iff {m m' : BlockMap} (h : Grown m m') (ht : IndexTree m genesis) {a b : Uint256}
    (ha : a ∈ indexed m) : Ancestor (parentOf m') a b ↔ Ancestor (parentOf m) a b :=
  ht.graded.ancestor_congr (fun _ hh => h.parent hh) ha

theorem BestIndexed.of_sameTree (h : BestIndexed genesis node tip)
    (hsame : SameTree node'.mapBlockIndex node.mapBlockIndex) (hglobals : node'.globals = node.globals) :
    BestIndexed genesis node' tip := by
  simp only [Node.globals, Prod.mk.injEq] at hglobals
  exact ⟨h.tree.congr hsame, hsame.mem_indexed h.mem, hglobals.2.1.trans h.best,
    by rw [hglobals.2.2.2.1, hsame.heightOf_eq, h.height]⟩

theorem add_bestIndexed {a : Arrival} (h : BestIndexed genesis node tip) (hvalid : a.Valid env node) :
    Grown node.mapBlockIndex (a.add env node).mapBlockIndex ∧
      ∃ tip', BestIndexed genesis (a.add env node) tip' := by
  rcases Arrival.add_cases hvalid with ⟨hadd, -⟩ | ⟨hadd, -⟩ | ⟨pindexNew, hnew, hfresh, -, -, hentry, hadd⟩
  · rw [hadd]
    exact ⟨Grown.refl _, tip, h⟩
  · rw [hadd]
    exact ⟨Grown.refl _, tip, h.tree, h.mem, h.best, h.height⟩
  · obtain ⟨prev, hprev⟩ := Option.isSome_iff_exists.mp hvalid.parent
    obtain ⟨-, hpprev, hheight, -⟩ := newBlockIndex_ok hprev hnew
    have hprevHash := h.tree.hash hprev
    -- the entry is added, and the best block is as before
    have hgrown : Grown node.mapBlockIndex (insertBlockIndex node pindexNew).mapBlockIndex :=
      grown_insert hfresh
    have hinsert : BestIndexed genesis (insertBlockIndex node pindexNew) tip :=
      ⟨h.tree.insert hfresh (by rw [hpprev, hprevHash]) (by rw [hprevHash, hprev]) hheight,
        hgrown.mem h.mem, h.best, h.height.trans (by rw [hgrown.height h.mem])⟩
    rw [hadd]
    split_ifs
    · have hsame := (sameEntries_setBestChain env a.ctx _ a.block pindexNew hinsert.tree.hash hentry).sameTree
      obtain ⟨herror, hok⟩ := globals_setBestChain env a.ctx _ a.block pindexNew hinsert.tree.hash hentry
      refine ⟨hgrown.trans hsame.grown, ?_⟩
      cases hset : setBestChain env a.ctx (insertBlockIndex node pindexNew) a.block pindexNew with
      | error e =>
        rw [hset] at hsame
        exact ⟨tip, hinsert.of_sameTree hsame (herror e hset)⟩
      | ok node' =>
        rw [hset, nodeOf] at hsame
        obtain ⟨hbest, hbestHeight⟩ := hok node' hset
        exact ⟨_, hinsert.tree.congr hsame, hsame.mem_indexed (mem_indexed hentry), hbest,
          hbestHeight.trans (by rw [nodeOf, hsame.heightOf_eq, heightOf_eq hentry])⟩
    · exact ⟨hgrown, tip, hinsert⟩

theorem bestIndexed_onlyGenesis (h : OnlyGenesis genesis node) : BestIndexed genesis node genesis := by
  have hinv : BestInv (.permissive (fun _ => 0) (fun _ => 0) (fun _ _ _ _ _ _ => true) (.ofBlocks []))
    genesis node genesis := bestInv_onlyGenesis h
  exact ⟨hinv.chainTip.tree, hinv.chainTip.mem, hinv.best, hinv.height⟩

/-! ### Trust -/

/-- The best chain has the trust of its tip, and a chain that has more has been found invalid. -/
structure TrustOk (node : Node) : Prop where
  best : ∃ pindexBest, node.pindexBest.bind node.mapBlockIndex = some pindexBest ∧
    pindexBest.nChainTrust = node.nBestChainTrust
  le : ∀ h e, node.mapBlockIndex h = some e →
    e.nChainTrust ≤ max node.nBestChainTrust node.nBestInvalidTrust

theorem SameEntries.trust_eq {m m' : BlockMap} {h : Uint256} {e : CBlockIndex} (hsame : SameEntries m' m)
    (he : m h = some e) : ∃ e', m' h = some e' ∧ e'.nChainTrust = e.nChainTrust := by
  obtain ⟨e', he', hchain⟩ := hsame.exists_left he
  exact ⟨e', he', by rw [hchain]⟩

theorem SameEntries.trust_le {m m' : BlockMap} {k : Uint256} {e' : CBlockIndex} {T : Nat}
    (hsame : SameEntries m' m) (hle : ∀ k e, m k = some e → e.nChainTrust ≤ T) (he' : m' k = some e') :
    e'.nChainTrust ≤ T := by
  obtain ⟨e, he, hchain⟩ := hsame.exists_right he'
  rw [hchain]
  exact hle k e he

/-- **One arrival**: the trust of the best chain does not go down, whatever fails. -/
theorem add_trustOk {a : Arrival} (h : BestIndexed genesis node tip) (htrust : TrustOk node)
    (hvalid : a.Valid env node) :
    TrustOk (a.add env node) ∧ node.nBestChainTrust ≤ (a.add env node).nBestChainTrust ∧
      node.nBestInvalidTrust ≤ (a.add env node).nBestInvalidTrust := by
  rcases Arrival.add_cases hvalid with ⟨hadd, -⟩ | ⟨hadd, -⟩ | ⟨pindexNew, -, hfresh, -, -, hentry, hadd⟩
  · rw [hadd]
    exact ⟨htrust, le_rfl, le_rfl⟩
  · rw [hadd]
    exact ⟨⟨htrust.best, htrust.le⟩, le_rfl, le_rfl⟩
  rw [hadd]
  have hkey : HashKeyed (insertBlockIndex node pindexNew).mapBlockIndex :=
    HashKeyed.insert h.tree.hash pindexNew
  -- the tip and the other entries are as before
  obtain ⟨pindexBest, hbest, hbestTrust⟩ := htrust.best
  have hbest' : (insertBlockIndex node pindexNew).pindexBest.bind
      (insertBlockIndex node pindexNew).mapBlockIndex = some pindexBest := by
    obtain ⟨best, htip, hold⟩ := Option.bind_eq_some_iff.mp hbest
    refine Option.bind_eq_some_iff.mpr ⟨best, htip, (Function.update_of_ne ?_ _ _).trans hold⟩
    rintro rfl
    rw [hfresh] at hold
    cases hold
  have hle : ∀ k e, (insertBlockIndex node pindexNew).mapBlockIndex k = some e →
      e.nChainTrust ≤ max pindexNew.nChainTrust (max node.nBestChainTrust node.nBestInvalidTrust) := by
    intro k e he
    by_cases hk : k = pindexNew.hashBlock
    · rw [hk, hentry] at he
      exact le_max_of_le_left (Option.some.inj he ▸ le_rfl)
    · exact le_max_of_le_right (htrust.le k e ((Function.update_of_ne hk _ _).symm.trans he))
  split_ifs with hbetter
  · have hsame := sameEntries_setBestChain env a.ctx _ a.block pindexNew hkey hentry
    obtain ⟨herror, hok⟩ := setBestChain_spec env a.ctx _ a.block pindexNew hkey hentry
    cases hset : setBestChain env a.ctx (insertBlockIndex node pindexNew) a.block pindexNew with
    | error e =>
      rw [hset, nodeOf] at hsame
      obtain ⟨⟨-, hglobals, hraised⟩, hinvalid⟩ := herror e hset
      have hinvalid := hinvalid (by rw [hbest']; simp)
      simp only [Node.globals, Prod.mk.injEq] at hglobals
      obtain ⟨-, htip, -, -, hchain'⟩ := hglobals
      obtain ⟨best, hold, hmem⟩ := Option.bind_eq_some_iff.mp hbest'
      obtain ⟨pindexBest', hmem', heq⟩ := hsame.trust_eq hmem
      refine ⟨⟨⟨pindexBest', by rw [nodeOf, htip, hold]; exact hmem', ?_⟩, fun k e' he' => ?_⟩,
        hchain'.ge, hraised⟩
      · exact heq.trans (hbestTrust.trans hchain'.symm)
      · have hle' := hsame.trust_le hle he'
        simp only [nodeOf, hchain', insertBlockIndex] at hraised ⊢
        omega
    | ok node' =>
      rw [hset, nodeOf] at hsame
      obtain ⟨⟨htip, -⟩, hchain', hraised⟩ := hok node' hset
      obtain ⟨pindexNew', hmem', heq⟩ := hsame.trust_eq hentry
      refine ⟨⟨⟨pindexNew', by rw [nodeOf, htip]; exact hmem', heq.trans hchain'.symm⟩,
        fun k e' he' => ?_⟩, hbetter.le.trans hchain'.ge, hraised⟩
      have hle' := hsame.trust_le hle he'
      simp only [nodeOf, hchain', insertBlockIndex] at hraised ⊢
      omega
  · refine ⟨⟨⟨pindexBest, hbest', hbestTrust⟩, fun k e he => ?_⟩, le_rfl, le_rfl⟩
    exact (hle k e he).trans (max_le (le_max_of_le_left (not_lt.mp hbetter)) le_rfl)

/-- **The trust of the best chain**, in every run, no matter which blocks fail: it is that of the tip, it
never goes down, and a block with more of it is covered by `nBestInvalidTrust`. -/
theorem indexRun_trustOk {P : Node → Arrival → Prop} {start : Node} (hstart : OnlyGenesis genesis start)
    (htrust : ∀ e, start.mapBlockIndex genesis = some e → e.nChainTrust = start.nBestChainTrust)
    (hrun : ReflTransGen (IndexStep env P) start node)
    (hrun' : ReflTransGen (IndexStep env P) node node') :
    TrustOk node' ∧ node.nBestChainTrust ≤ node'.nBestChainTrust ∧
      node.nBestInvalidTrust ≤ node'.nBestInvalidTrust := by
  have hinv : ∀ {node}, ReflTransGen (IndexStep env P) start node →
      (∃ tip, BestIndexed genesis node tip) ∧ TrustOk node := by
    intro node hrun
    induction hrun with
    | refl =>
      have hgen := bestIndexed_onlyGenesis hstart
      obtain ⟨⟨e, -, -, -, -, hmap⟩, -, hbest, -⟩ := hstart
      have he : start.mapBlockIndex genesis = some e := by rw [hmap, Function.update_self]
      refine ⟨⟨genesis, hgen⟩, ⟨e, by rw [hbest]; exact he, htrust e he⟩, fun h e' he' => ?_⟩
      rw [hmap] at he'
      rw [(eq_of_single rfl he').2]
      exact le_max_of_le_left (htrust e he).le
    | tail _ hstep ih =>
      obtain ⟨⟨tip, hindexed⟩, hok⟩ := ih
      obtain ⟨a, hvalid, -, rfl⟩ := hstep
      exact ⟨(add_bestIndexed hindexed hvalid).2, (add_trustOk hindexed hok hvalid).1⟩
  refine ⟨(hinv (hrun.trans hrun')).2, ?_⟩
  induction hrun' with
  | refl => exact ⟨le_rfl, le_rfl⟩
  | tail hrun' hstep ih =>
    obtain ⟨⟨tip, hindexed⟩, hok⟩ := hinv (hrun.trans hrun')
    obtain ⟨a, hvalid, -, rfl⟩ := hstep
    obtain ⟨-, hchain, hinvalid⟩ := add_trustOk hindexed hok hvalid
    exact ⟨ih.1.trans hchain, ih.2.trans hinvalid⟩

/-- The third block cannot be connected, because its parent is too far in the future. -/
theorem indexRun_trustOk_branch : TrustOk (branchNode 3) ∧
    (branchNode 2).nBestChainTrust ≤ (branchNode 3).nBestChainTrust ∧
    (branchNode 2).nBestInvalidTrust ≤ (branchNode 3).nBestInvalidTrust := by
  have hrun : ReflTransGen (IndexStep branchEnv fun _ _ => True) genesisNode (branchNode 2) := by
    refine (ReflTransGen.single (branchStep 0 rfl ⟨?_, ?_⟩ trivial)).tail
      (branchStep 1 rfl ⟨?_, ?_⟩ trivial) <;> decide
  refine indexRun_trustOk onlyGenesis_genesisNode ?_ hrun
    (.single (branchStep 2 rfl ⟨by decide, by decide⟩ trivial))
  intro e he
  cases he
  rfl

end Sphinx
