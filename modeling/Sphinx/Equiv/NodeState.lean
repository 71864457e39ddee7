import Sphinx.NodeState

/-!
# Blocks to be downloaded and blocks in flight

Every block is in at most one of the two maps and in the list of one node, and the iterators of the maps
are good (`BlocksConsistent`).  A call is allowed (`Lifecycle`) if the node it is about is there: a
`CNode` calls `InitializeNode` when it is made and `FinalizeNode` when it goes.

* `receiveToDownload_spec`, `receiveInFlight_spec`: a block is taken out of the list it is in;
* `getDataLoop_total`: the loop of `SendMessages` ends, as a node has at most
  `MAX_BLOCKS_IN_TRANSIT_PER_PEER` blocks in flight;
* `blockDownload_consistent`: no allowed sequence of calls goes wrong.
-/

namespace Sphinx

open StdList NodeStates

variable {s s' : NodeStates} {nodeid : NodeId} {hash : Uint256} {st st' : CNodeState}

namespace NodeStates

/-- The lists of the blocks to be downloaded. -/
def toDownloadLists (s : NodeStates) (nodeid : NodeId) : Option (StdList Uint256) :=
  (s.state nodeid).map CNodeState.vBlocksToDownload

/-- The lists of the blocks in flight. -/
def inFlightLists (s : NodeStates) (nodeid : NodeId) : Option (StdList QueuedBlock) :=
  (s.state nodeid).map CNodeState.vBlocksInFlight

end NodeStates

/-- The counters of a node are right. -/
def CNodeState.CountsOk (st : CNodeState) : Prop :=
  st.nBlocksToDownload = st.vBlocksToDownload.size ∧ st.nBlocksInFlight = st.vBlocksInFlight.size

/-- The maps have exactly the elements of the lists of the nodes, and no block twice. -/
structure BlocksConsistent (s : NodeStates) : Prop where
  toDownload : Points id s.toDownloadLists s.mapBlocksToDownload
  inFlight : Points QueuedBlock.hash s.inFlightLists s.mapBlocksInFlight
  disjoint : ∀ hash, s.mapBlocksToDownload.lookup hash = none ∨ s.mapBlocksInFlight.lookup hash = none
  counts : ∀ nodeid st, s.state nodeid = some st → st.CountsOk

/-! ### Writing the state of a node -/

theorem state_setState (s : NodeStates) (nodeid n : NodeId) (st : CNodeState) :
    (s.setState nodeid st).state n = if n = nodeid then some st else s.state n := by
  unfold setState state
  split_ifs with hn
  · rw [hn, AList.lookup_insert]
  · exact AList.lookup_insert_ne hn

section

variable (s : NodeStates) (nodeid : NodeId) (st : CNodeState)

@[simp] theorem state_setState_self :
    (s.setState nodeid st).state nodeid = some st := by
  rw [state_setState, if_pos rfl]

theorem toDownloadLists_setState :
    (s.setState nodeid st).toDownloadLists =
      Function.update s.toDownloadLists nodeid (some st.vBlocksToDownload) := by
  funext n
  unfold toDownloadLists
  rw [state_setState]
  by_cases hn : n = nodeid
  · subst hn; simp
  · simp [hn]

theorem inFlightLists_setState :
    (s.setState nodeid st).inFlightLists =
      Function.update s.inFlightLists nodeid (some st.vBlocksInFlight) := by
  funext n
  unfold inFlightLists
  rw [state_setState]
  by_cases hn : n = nodeid
  · subst hn; simp
  · simp [hn]

end

theorem toDownloadLists_eq (h : s.state nodeid = some st) :
    s.toDownloadLists nodeid = some st.vBlocksToDownload := by
  rw [toDownloadLists, h, Option.map_some]

theorem inFlightLists_eq (h : s.state nodeid = some st) :
    s.inFlightLists nodeid = some st.vBlocksInFlight := by
  rw [inFlightLists, h, Option.map_some]

/-- A state with the same list of blocks to be downloaded. -/
theorem toDownloadLists_setState_same (h : s.state nodeid = some st)
    (hv : st'.vBlocksToDownload = st.vBlocksToDownload) :
    (s.setState nodeid st').toDownloadLists = s.toDownloadLists := by
  rw [toDownloadLists_setState, hv, ← toDownloadLists_eq h, Function.update_eq_self]

theorem inFlightLists_setState_same (h : s.state nodeid = some st)
    (hv : st'.vBlocksInFlight = st.vBlocksInFlight) :
    (s.setState nodeid st').inFlightLists = s.inFlightLists := by
  rw [inFlightLists_setState, hv, ← inFlightLists_eq h, Function.update_eq_self]

theorem BlocksConsistent.counts_setState (h : BlocksConsistent s) (hst : st.CountsOk) :
    ∀ n st', (s.setState nodeid st).state n = some st' → st'.CountsOk := by
  intro n st' hn
  rw [state_setState] at hn
  split_ifs at hn
  · exact Option.some.inj hn ▸ hst
  · exact h.counts n st' hn

/-- A write that touches neither the lists nor the counters. -/
theorem BlocksConsistent.setState_same (h : BlocksConsistent s) (hst : s.state nodeid = some st)
    (hdownload : st'.vBlocksToDownload = st.vBlocksToDownload)
    (hflight : st'.vBlocksInFlight = st.vBlocksInFlight)
    (hcounts : st'.nBlocksToDownload = st.nBlocksToDownload ∧ st'.nBlocksInFlight = st.nBlocksInFlight) :
    BlocksConsistent (s.setState nodeid st') := by
  obtain ⟨h1, h2⟩ := h.counts nodeid st hst
  refine ⟨?_, ?_, h.disjoint, h.counts_setState ⟨?_, ?_⟩⟩
  · rw [toDownloadLists_setState_same hst hdownload]
    exact h.toDownload
  · rw [inFlightLists_setState_same hst hflight]
    exact h.inFlight
  · rw [hdownload, hcounts.1, h1]
  · rw [hflight, hcounts.2, h2]

/-- The same nodes are there. -/
def SameNodes (s s' : NodeStates) : Prop := ∀ n, (s'.state n).isSome = (s.state n).isSome

theorem sameNodes_setState (hst : s.state nodeid = some st) (st' : CNodeState) :
    SameNodes s (s.setState nodeid st') := by
  intro n
  rw [state_setState]
  split_ifs with hn
  · rw [hn, hst]
    rfl
  · rfl

/-! ### The functions -/

section

variable (h : BlocksConsistent s)

include h

theorem initializeNode_consistent (nodeid : NodeId) (addrName : String) :
    BlocksConsistent (s.initializeNode nodeid addrName) := by
  unfold initializeNode
  cases hst : s.state nodeid with
  | some st => exact h.setState_same hst rfl rfl ⟨rfl, rfl⟩
  | none =>
    have hdownload : s.toDownloadLists nodeid = none := by rw [toDownloadLists, hst, Option.map_none]
    have hflight : s.inFlightLists nodeid = none := by rw [inFlightLists, hst, Option.map_none]
    refine ⟨?_, ?_, h.disjoint, h.counts_setState ⟨rfl, rfl⟩⟩
    · rw [toDownloadLists_setState]
      exact h.toDownload.addList hdownload
    · rw [inFlightLists_setState]
      exact h.inFlight.addList hflight

theorem finalizeNode_spec (hst : s.state nodeid = some st) :
    ∃ s', s.finalizeNode nodeid = some s' ∧ BlocksConsistent s' ∧
      ∀ n, s'.state n = if n = nodeid then none else s.state n := by
  have hstate : ∀ n, (s.mapNodeState.erase nodeid).lookup n = if n = nodeid then none else s.state n := by
    intro n
    split_ifs with hn
    · rw [hn, AList.lookup_erase]
    · exact AList.lookup_erase_ne hn
  have hlists : ∀ {α : Type} (f : CNodeState → StdList α) (s' : NodeStates),
      s'.mapNodeState = s.mapNodeState.erase nodeid → (fun n => (s'.state n).map f) =
        Function.update (fun n => (s.state n).map f) nodeid none := by
    intro α f s' hs'
    funext n
    rw [state, hs', hstate]
    by_cases hn : n = nodeid
    · subst hn; simp
    · simp [hn]
  rw [finalizeNode, hst]
  refine ⟨_, rfl, ⟨?_, ?_, fun hash => ?_, fun n st' hn => ?_⟩, hstate⟩
  · have hdrop := h.toDownload.dropList (toDownloadLists_eq hst)
    unfold toDownloadLists
    rw [hlists CNodeState.vBlocksToDownload _ rfl]
    exact hdrop
  · have hdrop := h.inFlight.dropList (inFlightLists_eq hst)
    unfold inFlightLists
    rw [hlists CNodeState.vBlocksInFlight _ rfl]
    exact hdrop
  · simp only [MapLoop.lookup_foldl_erase]
    rcases h.disjoint hash with hnone | hnone
    · exact .inl (by rw [hnone, ite_self])
    · exact .inr (by rw [hnone, ite_self])
  · have hn' := (hstate n).symm.trans hn
    split_ifs at hn'
    exact h.counts n st' hn'

/-- A node gets another list of blocks to be downloaded, and the index follows. -/
theorem BlocksConsistent.setToDownload {index : StdMap Uint256 (NodeId × Nat)}
    (hst : s.state nodeid = some st) (hflight : st'.vBlocksInFlight = st.vBlocksInFlight)
    (hpoints : Points id (Function.update s.toDownloadLists nodeid (some st'.vBlocksToDownload)) index)
    (hdisjoint : ∀ hash, index.lookup hash = none ∨ s.mapBlocksInFlight.lookup hash = none)
    (hcounts : st'.CountsOk) :
    BlocksConsistent { s.setState nodeid st' with mapBlocksToDownload := index } := by
  refine ⟨?_, ?_, hdisjoint, h.counts_setState hcounts⟩
  · rw [← toDownloadLists_setState] at hpoints
    exact hpoints
  · have hold := h.inFlight
    rw [← inFlightLists_setState_same hst hflight] at hold
    exact hold

/-- A node gets another list of blocks in flight, and the index follows. -/
theorem BlocksConsistent.setInFlight {index : StdMap Uint256 (NodeId × Nat)}
    (hst : s.state nodeid = some st) (hdownload : st'.vBlocksToDownload = st.vBlocksToDownload)
    (hpoints : Points QueuedBlock.hash
      (Function.update s.inFlightLists nodeid (some st'.vBlocksInFlight)) index)
    (hdisjoint : ∀ hash, s.mapBlocksToDownload.lookup hash = none ∨ index.lookup hash = none)
    (hcounts : st'.CountsOk) :
    BlocksConsistent { s.setState nodeid st' with mapBlocksInFlight := index } := by
  refine ⟨?_, ?_, hdisjoint, h.counts_setState hcounts⟩
  · have hold := h.toDownload
    rw [← toDownloadLists_setState_same hst hdownload] at hold
    exact hold
  · rw [← inFlightLists_setState] at hpoints
    exact hpoints

/-- The block is not in a list of blocks to be downloaded any more, and nothing else has changed. -/
theorem receiveToDownload_spec (hash : Uint256) :
    ∃ s', s.receiveToDownload hash = some s' ∧ BlocksConsistent s' ∧ SameNodes s s' ∧
      s'.mapBlocksToDownload.lookup hash = none ∧ s'.mapBlocksInFlight = s.mapBlocksInFlight ∧
      s'.inFlightLists = s.inFlightLists := by
  cases hlookup : s.mapBlocksToDownload.lookup hash with
  | none => exact ⟨s, by simp [receiveToDownload, hlookup], h, fun _ => rfl, hlookup, rfl, rfl⟩
  | some e =>
    obtain ⟨nodeid, it⟩ := e
    obtain ⟨l, a, hl, -⟩ := h.toDownload.iterator hlookup
    obtain ⟨st, hst, rfl⟩ := Option.map_eq_some_iff.mp hl
    obtain ⟨l', herase, hsize, hpoints⟩ := h.toDownload.erase hlookup hl
    obtain ⟨h1, h2⟩ := h.counts nodeid st hst
    have hrun : s.receiveToDownload hash = some
        { s.setState nodeid { st with
            vBlocksToDownload := l', nBlocksToDownload := st.nBlocksToDownload - 1 } with
          mapBlocksToDownload := s.mapBlocksToDownload.erase hash } := by
      simp only [receiveToDownload, hlookup, hst, Option.bind_eq_bind, Option.bind_some, herase]
      rfl
    refine ⟨_, hrun, h.setToDownload hst rfl hpoints (fun hash' => ?_) ⟨?_, h2⟩, sameNodes_setState hst _,
      AList.lookup_erase _ _, rfl, inFlightLists_setState_same hst rfl⟩
    · by_cases hh : hash' = hash
      · exact .inl (by rw [hh, AList.lookup_erase])
      · rw [AList.lookup_erase_ne hh]
        exact h.disjoint hash'
    · change st.nBlocksToDownload - 1 = l'.size
      omega

/-- The block is not in flight any more, and the blocks to be downloaded have not changed. -/
theorem receiveInFlight_spec (hash : Uint256) (nodeFrom : NodeId) (nNow : Int) :
    ∃ s', s.receiveInFlight hash nodeFrom nNow = some s' ∧ BlocksConsistent s' ∧ SameNodes s s' ∧
      s'.mapBlocksInFlight.lookup hash = none ∧ s'.mapBlocksToDownload = s.mapBlocksToDownload ∧
      (s.mapBlocksInFlight.lookup hash = none → s' = s) := by
  cases hlookup : s.mapBlocksInFlight.lookup hash with
  | none => exact ⟨s, by simp [receiveInFlight, hlookup], h, fun _ => rfl, hlookup, rfl, fun _ => rfl⟩
  | some e =>
    obtain ⟨nodeid, it⟩ := e
    obtain ⟨l, a, hl, -⟩ := h.inFlight.iterator hlookup
    obtain ⟨st, hst, rfl⟩ := Option.map_eq_some_iff.mp hl
    obtain ⟨l', herase, hsize, hpoints⟩ := h.inFlight.erase hlookup hl
    obtain ⟨h1, h2⟩ := h.counts nodeid st hst
    have hrun : s.receiveInFlight hash nodeFrom nNow = some
        { s.setState nodeid { st with
            vBlocksInFlight := l', nBlocksInFlight := st.nBlocksInFlight - 1
            nLastBlockReceive := if nodeid = nodeFrom then nNow else st.nLastBlockReceive } with
          mapBlocksInFlight := s.mapBlocksInFlight.erase hash } := by
      simp only [receiveInFlight, hlookup, hst, Option.bind_eq_bind, Option.bind_some, herase]
      rfl
    refine ⟨_, hrun, h.setInFlight hst rfl hpoints (fun hash' => ?_) ⟨h1, ?_⟩, sameNodes_setState hst _,
      AList.lookup_erase _ _, rfl, fun hnone => ?_⟩
    · by_cases hh : hash' = hash
      · exact .inr (by rw [hh, AList.lookup_erase])
      · rw [AList.lookup_erase_ne hh]
        exact h.disjoint hash'
    · change st.nBlocksInFlight - 1 = l'.size
      omega
    · cases hnone

theorem markBlockAsReceived_spec (hash : Uint256) (nodeFrom : NodeId)
    (nNow : Int) :
    ∃ s', s.markBlockAsReceived hash nodeFrom nNow = some s' ∧ BlocksConsistent s' ∧ SameNodes s s' ∧
      s'.mapBlocksToDownload.lookup hash = none ∧ s'.mapBlocksInFlight.lookup hash = none ∧
      (s.mapBlocksInFlight.lookup hash = none → s'.inFlightLists = s.inFlightLists) := by
  obtain ⟨s1, hrun1, h1, hsame1, hnone1, hmap1, hlists1⟩ := receiveToDownload_spec h hash
  obtain ⟨s2, hrun2, h2, hsame2, hnone2, hmap2, hlists2⟩ := receiveInFlight_spec h1 hash nodeFrom nNow
  refine ⟨s2, ?_, h2, fun n => (hsame2 n).trans (hsame1 n), ?_, hnone2, fun hnone => ?_⟩
  · rw [markBlockAsReceived, hrun1]
    exact hrun2
  · rw [hmap2]
    exact hnone1
  · rw [hlists2 (by rw [hmap1]; exact hnone), hlists1]

end

theorem countsOk_misbehave (banScore howmuch : Int) (hst : st.CountsOk) :
    (misbehave banScore st howmuch).CountsOk := by
  unfold misbehave
  split_ifs
  · exact hst
  · exact hst

theorem misbehave_lists (banScore howmuch : Int) (st : CNodeState) :
    (misbehave banScore st howmuch).vBlocksToDownload = st.vBlocksToDownload ∧
      (misbehave banScore st howmuch).vBlocksInFlight = st.vBlocksInFlight := by
  unfold misbehave
  split_ifs <;> exact ⟨rfl, rfl⟩

theorem misbehaving_consistent (h : BlocksConsistent s) (banScore : Int) (pnode : NodeId) (howmuch : Int) :
    BlocksConsistent (misbehaving banScore s pnode howmuch) ∧
      SameNodes s (misbehaving banScore s pnode howmuch) := by
  unfold misbehaving
  cases hst : s.state pnode with
  | none => exact ⟨h, fun _ => rfl⟩
  | some st =>
    refine ⟨?_, sameNodes_setState hst _⟩
    unfold misbehave
    split_ifs
    · exact h.setState_same hst rfl rfl ⟨rfl, rfl⟩
    · exact h.setState_same hst rfl rfl ⟨rfl, rfl⟩

theorem addBlockToQueue_consistent (h : BlocksConsistent s) (banScore : Int) (nodeid : NodeId)
    (hash : Uint256) :
    BlocksConsistent (addBlockToQueue banScore s nodeid hash).2 ∧
      SameNodes s (addBlockToQueue banScore s nodeid hash).2 := by
  unfold addBlockToQueue
  split_ifs with hlisted
  · exact ⟨h, fun _ => rfl⟩
  rw [Bool.or_eq_true, not_or, Option.not_isSome_iff_eq_none, Option.not_isSome_iff_eq_none] at hlisted
  cases hst : s.state nodeid with
  | none => exact ⟨h, fun _ => rfl⟩
  | some st =>
    obtain ⟨h1, h2⟩ := h.counts nodeid st hst
    have hpoints := h.toDownload.pushBack (a := hash) (toDownloadLists_eq hst) hlisted.1
    have hcounts : CNodeState.CountsOk { st with
        vBlocksToDownload := st.vBlocksToDownload.pushBack hash
        nBlocksToDownload := st.nBlocksToDownload + 1 } := by
      refine ⟨?_, h2⟩
      change st.nBlocksToDownload + 1 = (st.vBlocksToDownload.pushBack hash).size
      rw [size_pushBack, h1]
      rfl
    have hdisjoint : ∀ hash', (s.mapBlocksToDownload.insert hash (nodeid, st.vBlocksToDownload.next)).lookup
        hash' = none ∨ s.mapBlocksInFlight.lookup hash' = none := by
      intro hash'
      by_cases hh : hash' = hash
      · exact .inr (hh ▸ hlisted.2)
      · rw [AList.lookup_insert_ne hh]
        exact h.disjoint hash'
    simp only
    split_ifs
    · obtain ⟨hdownload, hflight⟩ := misbehave_lists banScore 10 { st with
        vBlocksToDownload := st.vBlocksToDownload.pushBack hash
        nBlocksToDownload := st.nBlocksToDownload + 1 }
      refine ⟨h.setToDownload hst hflight ?_ hdisjoint (countsOk_misbehave _ _ hcounts),
        sameNodes_setState hst _⟩
      rw [hdownload]
      exact hpoints
    · exact ⟨h.setToDownload hst rfl hpoints hdisjoint hcounts, sameNodes_setState hst _⟩

/-- The block is in flight from the node; a block that has not been in flight makes one more. -/
theorem markBlockAsInFlight_spec (h : BlocksConsistent s) (hnode : (s.state nodeid).isSome = true)
    (hash : Uint256) (nNow : Int) :
    ∃ s', s.markBlockAsInFlight nodeid hash nNow = some s' ∧ BlocksConsistent s' ∧ SameNodes s s' ∧
      (s.mapBlocksInFlight.lookup hash = none → ∀ st, s.state nodeid = some st →
        ∃ st', s'.state nodeid = some st' ∧ st'.vBlocksInFlight.size = st.vBlocksInFlight.size + 1) := by
  obtain ⟨s1, hrun1, h1, hsame1, hdownload1, hflight1, hlists1⟩ := markBlockAsReceived_spec h hash (-1) nNow
  obtain ⟨st0, hst0⟩ := Option.isSome_iff_exists.mp hnode
  obtain ⟨st, hst⟩ := Option.isSome_iff_exists.mp ((hsame1 nodeid).trans hnode)
  obtain ⟨hc1, hc2⟩ := h1.counts nodeid st hst
  have hrun : s.markBlockAsInFlight nodeid hash nNow = some
      { s1.setState nodeid { st with
          nLastBlockReceive := if st.nBlocksInFlight = 0 then nNow else st.nLastBlockReceive
          vBlocksInFlight := st.vBlocksInFlight.pushBack ⟨hash, nNow, st.nBlocksInFlight⟩
          nBlocksInFlight := st.nBlocksInFlight + 1 } with
        mapBlocksInFlight := s1.mapBlocksInFlight.insert hash (nodeid, st.vBlocksInFlight.next) } := by
    simp only [markBlockAsInFlight, hst0, hst, Option.bind_eq_bind, Option.bind_some, hrun1]
    rfl
  have hpoints := h1.inFlight.pushBack (a := ⟨hash, nNow, st.nBlocksInFlight⟩) (inFlightLists_eq hst) hflight1
  refine ⟨_, hrun, h1.setInFlight hst rfl hpoints (fun hash' => ?_) ⟨hc1, ?_⟩, fun n => ?_, ?_⟩
  · by_cases hh : hash' = hash
    · exact .inl (hh ▸ hdownload1)
    · rw [AList.lookup_insert_ne hh]
      exact h1.disjoint hash'
  · change st.nBlocksInFlight + 1 = (st.vBlocksInFlight.pushBack _).size
    rw [size_pushBack, hc2]
    rfl
  · exact (sameNodes_setState hst _ n).trans (hsame1 n)
  · intro hnone st' hst'
    refine ⟨_, state_setState_self _ _ _, ?_⟩
    have hlists := congrFun (hlists1 hnone) nodeid
    rw [inFlightLists_eq hst, inFlightLists_eq hst', Option.some.injEq] at hlists
    rw [size_pushBack, hlists]

/-! ### The loop of `SendMessages` -/

/-- **Asking for blocks ends**: every round puts one more block in flight. -/
theorem getDataLoop_total (pto : NodeId) (fDisconnect : Bool) (nNow : Int) :
    ∀ (n : Nat) {s : NodeStates} {st : CNodeState} (vGetData : List Uint256), BlocksConsistent s →
      s.state pto = some st → maxBlocksInTransitPerPeer ≤ st.vBlocksInFlight.size + n →
      ∃ s' hashes, (∀ fuel, n < fuel →
          getDataLoop pto fDisconnect nNow fuel s vGetData = some (s', hashes)) ∧
        BlocksConsistent s' ∧ SameNodes s s' := by
  intro n
  induction n with
  | zero =>
    intro s st vGetData h hst hle
    obtain ⟨h1, h2⟩ := h.counts pto st hst
    refine ⟨s, vGetData, fun fuel hfuel => ?_, h, fun _ => rfl⟩
    obtain ⟨f, rfl⟩ : ∃ f, fuel = f + 1 := ⟨fuel - 1, by omega⟩
    have hfull : ¬ st.nBlocksInFlight < maxBlocksInTransitPerPeer := by omega
    simp [getDataLoop, hst, hfull]
  | succ n ih =>
    intro s st vGetData h hst hle
    obtain ⟨h1, h2⟩ := h.counts pto st hst
    by_cases hgo : (!fDisconnect && st.nBlocksToDownload ≠ 0 &&
        st.nBlocksInFlight < maxBlocksInTransitPerPeer) = true
    · have hne : st.vBlocksToDownload.size ≠ 0 := by
        simp only [Bool.and_eq_true, decide_eq_true_eq] at hgo
        omega
      obtain ⟨it, hash, hmem, hfront⟩ := exists_front hne
      -- the block is waiting, so it is not in flight
      have hlisted := h.toDownload.lookup (toDownloadLists_eq hst) hmem
      have hnone : s.mapBlocksInFlight.lookup hash = none := by
        rcases h.disjoint hash with hd | hd
        · exact absurd (hd.symm.trans hlisted) (by simp)
        · exact hd
      obtain ⟨s1, hrun1, hc1, hsame1, hmore⟩ :=
        markBlockAsInFlight_spec h (Option.isSome_iff_exists.mpr ⟨st, hst⟩) hash nNow
      obtain ⟨st1, hst1, hsize1⟩ := hmore hnone st hst
      obtain ⟨s', hashes, hrest, h', hsame'⟩ := ih (vGetData ++ [hash]) hc1 hst1 (by omega)
      refine ⟨s', hashes, fun fuel hfuel => ?_, h', fun n => (hsame' n).trans (hsame1 n)⟩
      obtain ⟨f, rfl⟩ : ∃ f, fuel = f + 1 := ⟨fuel - 1, by omega⟩
      simp only [getDataLoop, hst, Option.bind_eq_bind, Option.bind_some, hgo, if_true, hfront, hrun1]
      exact hrest f (by omega)
    · refine ⟨s, vGetData, fun fuel hfuel => ?_, h, fun _ => rfl⟩
      obtain ⟨f, rfl⟩ : ∃ f, fuel = f + 1 := ⟨fuel - 1, by omega⟩
      simp only [getDataLoop, hst, Option.bind_eq_bind, Option.bind_some, hgo]
      rfl

theorem stalling_total (fDisconnect : Bool) (hst : st.CountsOk) :
    ∃ fStalling, stalling fDisconnect st = some fStalling := by
  unfold stalling
  split_ifs with hlong
  · have hne : st.vBlocksInFlight.size ≠ 0 := by
      have hcount := hst.2
      omega
    obtain ⟨it, entry, -, hfront⟩ := exists_front hne
    rw [hfront]
    exact ⟨_, rfl⟩
  · exact ⟨false, rfl⟩

theorem sendMessages_total {pto : NodeId} (h : BlocksConsistent s) (hnode : (s.state pto).isSome = true)
    (fDisconnect : Bool) (nNow : Int) :
    ∃ s' hashes fDisconnect', (∀ fuel, 129 ≤ fuel →
        sendMessages fuel s pto fDisconnect nNow = some (s', hashes, fDisconnect')) ∧
      BlocksConsistent s' ∧ SameNodes s s' := by
  obtain ⟨st, hst⟩ := Option.isSome_iff_exists.mp hnode
  obtain ⟨fStalling, hstalling⟩ := stalling_total fDisconnect (h.counts pto st hst)
  obtain ⟨s', hashes, hloop, h', hsame⟩ := getDataLoop_total pto (fDisconnect || fStalling) nNow 128 [] h
    hst (by simp only [maxBlocksInTransitPerPeer]; omega)
  refine ⟨s', hashes, fDisconnect || fStalling, fun fuel hfuel => ?_, h', hsame⟩
  simp only [sendMessages, hst, Option.bind_eq_bind, Option.bind_some, hstalling, hloop fuel (by omega)]
  rfl

/-! ### Sequences of calls -/

inductive NodeOp where
  | initializeNode (nodeid : NodeId) (addrName : String)
  | finalizeNode (nodeid : NodeId)
  | misbehaving (pnode : NodeId) (howmuch : Int)
  | addBlockToQueue (nodeid : NodeId) (hash : Uint256)
  | markBlockAsReceived (hash : Uint256) (nodeFrom : NodeId) (nNow : Int)
  | markBlockAsInFlight (nodeid : NodeId) (hash : Uint256) (nNow : Int)
  | processMessage (pfrom : NodeId) (nNow : Int)
  | sendMessages (pto : NodeId) (fDisconnect : Bool) (nNow : Int)

def nodeStep (banScore : Int) (fuel : Nat) (s : NodeStates) : NodeOp → Option NodeStates
  | .initializeNode nodeid addrName => some (s.initializeNode nodeid addrName)
  | .finalizeNode nodeid => s.finalizeNode nodeid
  | .misbehaving pnode howmuch => some (misbehaving banScore s pnode howmuch)
  | .addBlockToQueue nodeid hash => some (addBlockToQueue banScore s nodeid hash).2
  | .markBlockAsReceived hash nodeFrom nNow => s.markBlockAsReceived hash nodeFrom nNow
  | .markBlockAsInFlight nodeid hash nNow => s.markBlockAsInFlight nodeid hash nNow
  | .processMessage pfrom nNow => s.processMessage pfrom nNow
  | .sendMessages pto fDisconnect nNow => (sendMessages fuel s pto fDisconnect nNow).map Prod.fst

/-- The node that the call is about, where the caller holds its `CNode`. -/
def NodeOp.needs : NodeOp → Option NodeId
  | .finalizeNode nodeid => some nodeid
  | .markBlockAsInFlight nodeid _ _ => some nodeid
  | .processMessage pfrom _ => some pfrom
  | .sendMessages pto _ _ => some pto
  | _ => none

/-- The nodes that are there after the call. -/
def NodeOp.after (living : List NodeId) : NodeOp → List NodeId
  | .initializeNode nodeid _ => nodeid :: living
  | .finalizeNode nodeid => living.filter (· ≠ nodeid)
  | _ => living

/-- Every call that holds a `CNode` comes between its `InitializeNode` and its `FinalizeNode`. -/
def Lifecycle : List NodeId → List NodeOp → Prop
  | _, [] => True
  | living, op :: ops => (∀ n ∈ op.needs, n ∈ living) ∧ Lifecycle (op.after living) ops

/-- The nodes that have a state are the ones in the list. -/
def Living (s : NodeStates) (living : List NodeId) : Prop := ∀ n, n ∈ living ↔ (s.state n).isSome = true

theorem SameNodes.living {living : List NodeId} (h : SameNodes s s') (hl : Living s living) :
    Living s' living := by
  intro n
  rw [hl n, h n]

theorem nodeStep_total {living : List NodeId} {op : NodeOp} (banScore : Int) (h : BlocksConsistent s)
    (hl : Living s living) (hneeds : ∀ n ∈ op.needs, n ∈ living) :
    ∃ s', (∀ fuel, 129 ≤ fuel → nodeStep banScore fuel s op = some s') ∧ BlocksConsistent s' ∧
      Living s' (op.after living) := by
  have hnode : ∀ n, op.needs = some n → (s.state n).isSome = true :=
    fun n hn => (hl n).mp (hneeds n hn)
  cases op with
  | initializeNode nodeid addrName =>
    refine ⟨_, fun _ _ => rfl, initializeNode_consistent h nodeid addrName, fun n => ?_⟩
    simp only [NodeOp.after, List.mem_cons, initializeNode, state_setState]
    by_cases hn : n = nodeid
    · simp [hn]
    · simp [hn, hl n]
  | finalizeNode nodeid =>
    obtain ⟨st, hst⟩ := Option.isSome_iff_exists.mp (hnode nodeid rfl)
    obtain ⟨s', hrun, h', hstate⟩ := finalizeNode_spec h hst
    refine ⟨s', fun _ _ => hrun, h', fun n => ?_⟩
    rw [hstate]
    by_cases hn : n = nodeid
    · simp [NodeOp.after, hn]
    · simp [NodeOp.after, hn, hl n]
  | misbehaving pnode howmuch =>
    obtain ⟨h', hsame⟩ := misbehaving_consistent h banScore pnode howmuch
    exact ⟨_, fun _ _ => rfl, h', hsame.living hl⟩
  | addBlockToQueue nodeid hash =>
    obtain ⟨h', hsame⟩ := addBlockToQueue_consistent h banScore nodeid hash
    exact ⟨_, fun _ _ => rfl, h', hsame.living hl⟩
  | markBlockAsReceived hash nodeFrom nNow =>
    obtain ⟨s', hrun, h', hsame, -⟩ := markBlockAsReceived_spec h hash nodeFrom nNow
    exact ⟨s', fun _ _ => hrun, h', hsame.living hl⟩
  | markBlockAsInFlight nodeid hash nNow =>
    obtain ⟨s', hrun, h', hsame, -⟩ := markBlockAsInFlight_spec h (hnode nodeid rfl) hash nNow
    exact ⟨s', fun _ _ => hrun, h', hsame.living hl⟩
  | processMessage pfrom nNow =>
    obtain ⟨st, hst⟩ := Option.isSome_iff_exists.mp (hnode pfrom rfl)
    have hrun : s.processMessage pfrom nNow = some (s.setState pfrom { st with nLastBlockProcess := nNow }) := by
      rw [processMessage, hst]
      rfl
    exact ⟨_, fun _ _ => hrun, h.setState_same hst rfl rfl ⟨rfl, rfl⟩, (sameNodes_setState hst _).living hl⟩
  | sendMessages pto fDisconnect nNow =>
    obtain ⟨s', hashes, fDisconnect', hrun, h', hsame⟩ :=
      sendMessages_total h (hnode pto rfl) fDisconnect nNow
    refine ⟨s', fun fuel hfuel => ?_, h', hsame.living hl⟩
    rw [nodeStep, hrun fuel hfuel, Option.map_some]

theorem nodeRun_total (banScore : Int) (ops : List NodeOp) : ∀ {s : NodeStates} {living : List NodeId},
    BlocksConsistent s → Living s living → Lifecycle living ops →
      ∃ s', (∀ fuel, 129 ≤ fuel → ops.foldlM (nodeStep banScore fuel) s = some s') ∧
        BlocksConsistent s' := by
  induction ops with
  | nil => exact fun h _ _ => ⟨_, fun _ _ => rfl, h⟩
  | cons op ops ih =>
    intro s living h hl hops
    obtain ⟨s1, hrun1, h1, hl1⟩ := nodeStep_total banScore h hl hops.1
    obtain ⟨s', hrun, h'⟩ := ih h1 hl1 hops.2
    refine ⟨s', fun fuel hfuel => ?_, h'⟩
    rw [List.foldlM_cons, hrun1 fuel hfuel]
    exact hrun fuel hfuel

theorem blocksConsistent_empty : BlocksConsistent {} := by
  refine ⟨points_empty _, points_empty _, fun _ => .inl rfl, fun n st hst => ?_⟩
  cases hst

/-- **The bookkeeping of block downloads.**  No sequence of calls dereferences a null pointer or a
dangling iterator.  In every state every block is in one map at most, the maps have exactly the elements
of the lists of the nodes, and the counters are the lengths of the lists. -/
theorem blockDownload_consistent (banScore : Int) {ops : List NodeOp} (hops : Lifecycle [] ops) :
    ∃ s, (∀ fuel, 129 ≤ fuel → ops.foldlM (nodeStep banScore fuel) {} = some s) ∧
      (∀ hash, s.mapBlocksToDownload.lookup hash = none ∨ s.mapBlocksInFlight.lookup hash = none) ∧
      (∀ hash nodeid it, s.mapBlocksToDownload.lookup hash = some (nodeid, it) ↔
        ∃ st, s.state nodeid = some st ∧ (it, hash) ∈ st.vBlocksToDownload.nodes) ∧
      (∀ hash nodeid it, s.mapBlocksInFlight.lookup hash = some (nodeid, it) ↔
        ∃ st entry, s.state nodeid = some st ∧ (it, entry) ∈ st.vBlocksInFlight.nodes ∧ entry.hash = hash) ∧
      ∀ nodeid st, s.state nodeid = some st →
        st.nBlocksToDownload = st.vBlocksToDownload.size ∧ st.nBlocksInFlight = st.vBlocksInFlight.size := by
  have hliving : Living {} [] := fun n => by simp [NodeStates.state]
  obtain ⟨s, hrun, h⟩ := nodeRun_total banScore ops blocksConsistent_empty hliving hops
  refine ⟨s, hrun, h.disjoint, fun hash nodeid it => ?_, fun hash nodeid it => ?_, h.counts⟩
  · rw [h.toDownload hash nodeid it]
    constructor
    · rintro ⟨l, a, hl, ha, rfl⟩
      obtain ⟨st, hst, rfl⟩ := Option.map_eq_some_iff.mp hl
      exact ⟨st, hst, ha⟩
    · rintro ⟨st, hst, ha⟩
      exact ⟨_, hash, toDownloadLists_eq hst, ha, rfl⟩
  · rw [h.inFlight hash nodeid it]
    constructor
    · rintro ⟨l, entry, hl, ha, rfl⟩
      obtain ⟨st, hst, rfl⟩ := Option.map_eq_some_iff.mp hl
      exact ⟨st, entry, hst, ha, rfl⟩
    · rintro ⟨st, entry, hst, ha, rfl⟩
      exact ⟨_, entry, inFlightLists_eq hst, ha, rfl⟩

/-- Two nodes; a block that one of them has announced is asked for from the other one. -/
theorem blockDownload_consistent_two :
    ∃ s, [.initializeNode 0 "a", .initializeNode 1 "b", .addBlockToQueue 0 7, .markBlockAsInFlight 1 7 20,
        .finalizeNode 0].foldlM (nodeStep 100 129) {} = some s ∧
      (s.mapBlocksToDownload.lookup 7 = none ∨ s.mapBlocksInFlight.lookup 7 = none) := by
  have hops : Lifecycle [] [.initializeNode 0 "a", .initializeNode 1 "b", .addBlockToQueue 0 7,
      .markBlockAsInFlight 1 7 20, .finalizeNode 0] := by
    simp [Lifecycle, NodeOp.needs, NodeOp.after]
  obtain ⟨s, hrun, hdisjoint, -⟩ := blockDownload_consistent 100 hops
  exact ⟨s, hrun 129 le_rfl, hdisjoint 7⟩

end Sphinx
