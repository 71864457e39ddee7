import Sphinx.Equiv.IxOrder
import Sphinx.MasternodeMan

/-!
# Two complete locks

A lock needs the votes of 10 masternodes of the top 15 at its height.  Two locks with the same height are
judged by the same 15 masternodes, so one of these has voted for both (`quorumSafe`).

* `getBlockHash_onChain`: as long as the chain is only extended, `GetBlockHash` gives one hash for a
  positive height;
* `mem_topMasternodes`: a vote that passes the checks comes from the top 15 at its height;
* `HeightsNonneg`: so every vote that is counted does.

The height of a lock is that of the block of its first input, so two transactions that share another input
may be judged by different masternodes.
-/

namespace Sphinx

variable {env : Env} {hash1 : Uint256 → Uint256} {sort : ScoreSort} {c : IxCtx} {node node' : Node}
  {ix ix' : InstantX} {vote : CConsensusVote} {tx : CTransaction} {chain : Int → Uint256}
  {mapCacheBlockHashes : StdMap Int Uint256} {vMasternodes : List CMasternode}

/-! ### The hash of a block -/

/-- The blocks below the tip, and the hashes in the cache, are those of a chain. -/
structure OnChain (chain : Int → Uint256) (node : Node) (mapCacheBlockHashes : StdMap Int Uint256) : Prop where
  blocks : ∀ pindexBest, node.pindexBest.bind node.mapBlockIndex = some pindexBest →
    ∀ k hash, readBlocksAgo node.mapBlockIndex k pindexBest = some hash →
      hash = chain (pindexBest.nHeight - k)
  cache : ∀ h hash, 0 < h → mapCacheBlockHashes.lookup h = some hash → hash = chain (h - 1)

/-- `GetBlockHash` finds nothing, or a hash in the cache, or the hash of a block, which it puts into the
cache. -/
theorem getBlockHash_cases (node : Node) (mapCacheBlockHashes : StdMap Int Uint256) (nBlockHeight : Int) :
    getBlockHash node mapCacheBlockHashes nBlockHeight = (none, mapCacheBlockHashes) ∨
    ∃ pindexBest height hash, node.pindexBest.bind node.mapBlockIndex = some pindexBest ∧
      height = (if nBlockHeight = 0 then (pindexBest.nHeight : Int) else nBlockHeight) ∧
      ((mapCacheBlockHashes.lookup height = some hash ∧
          getBlockHash node mapCacheBlockHashes nBlockHeight = (some hash, mapCacheBlockHashes)) ∨
        ∃ k : Nat, readBlocksAgo node.mapBlockIndex k pindexBest = some hash ∧
          (0 < height → (k : Int) = pindexBest.nHeight + 1 - height) ∧
          getBlockHash node mapCacheBlockHashes nBlockHeight =
            (some hash, mapCacheBlockHashes.insert height hash)) := by
  cases hbest : node.pindexBest.bind node.mapBlockIndex with
  | none => exact .inl (by simp only [getBlockHash, hbest])
  | some pindexBest =>
    simp only [getBlockHash, hbest]
    generalize hheight : (if nBlockHeight = 0 then (pindexBest.nHeight : Int) else nBlockHeight) = height
    cases hcached : mapCacheBlockHashes.lookup height with
    | some hash => exact .inr ⟨pindexBest, height, hash, rfl, hheight.symm, .inl ⟨hcached, rfl⟩⟩
    | none =>
      by_cases hhigh : pindexBest.nHeight = 0 ∨ (pindexBest.nHeight : Int) + 1 < height
      · exact .inl (if_pos hhigh)
      · simp only [if_neg hhigh]
        generalize hk : (if 0 < height then (pindexBest.nHeight : Int) + 1 - height else 0) = nBlocksAgo
        cases hread : readBlocksAgo node.mapBlockIndex nBlocksAgo.toNat pindexBest with
        | none => exact .inl rfl
        | some hash =>
          refine .inr ⟨pindexBest, height, hash, rfl, hheight.symm, .inr ⟨_, hread, fun hpos => ?_, rfl⟩⟩
          rw [if_pos hpos] at hk
          omega

theorem getBlockHash_onChain (h : OnChain chain node mapCacheBlockHashes) {nBlockHeight : Int}
    {hash : Uint256} (hpos : 0 < nBlockHeight)
    (hok : (getBlockHash node mapCacheBlockHashes nBlockHeight).1 = some hash) :
    hash = chain (nBlockHeight - 1) := by
  rcases getBlockHash_cases node mapCacheBlockHashes nBlockHeight with
    hnone | ⟨pindexBest, height, hash', hbest, hheight, ⟨hcached, heq⟩ | ⟨k, hread, hk, heq⟩⟩
  · rw [hnone] at hok
    cases hok
  · rw [heq] at hok
    rw [if_neg hpos.ne'] at hheight
    rw [← Option.some.inj hok, h.cache height hash' (hheight ▸ hpos) hcached, hheight]
  · rw [heq] at hok
    rw [if_neg hpos.ne'] at hheight
    have hk := hk (hheight ▸ hpos)
    rw [← Option.some.inj hok, h.blocks pindexBest hbest k hash' hread]
    congr 1
    omega

/-! ### The top of the ranking -/

/-- The masternodes whose votes count for a block. -/
def topMasternodes (env : Env) (hash1 : Uint256 → Uint256) (sort : ScoreSort)
    (vMasternodes : List CMasternode) (hash : Uint256) : List CTxIn :=
  ((masternodeScores env hash1 sort vMasternodes hash minInstantXProtoVersion).take 15).map Prod.snd

/-- The ranks that a message is judged by are those of the masternodes on the chain. -/
def RankedBy (env : Env) (hash1 : Uint256 → Uint256) (sort : ScoreSort) (vMasternodes : List CMasternode)
    (chain : Int → Uint256) (c : IxCtx) (node : Node) : Prop :=
  ∃ mapCacheBlockHashes, OnChain chain node mapCacheBlockHashes ∧ ∀ vin nBlockHeight,
    c.getMasternodeRank vin nBlockHeight = getMasternodeRank env hash1 sort node mapCacheBlockHashes
      vMasternodes vin nBlockHeight minInstantXProtoVersion

theorem mem_topMasternodes (hr : RankedBy env hash1 sort vMasternodes chain c node)
    (hpass : passesChecks c vote = true) (hpos : 0 < vote.nBlockHeight) :
    vote.vinMasternode ∈ topMasternodes env hash1 sort vMasternodes (chain (vote.nBlockHeight - 1)) := by
  obtain ⟨mapCacheBlockHashes, hchain, hrank⟩ := hr
  simp only [passesChecks, Bool.and_eq_true, decide_eq_true_eq, hrank] at hpass
  obtain ⟨⟨hknown, hle⟩, -⟩ := hpass
  unfold getMasternodeRank at hknown hle
  split at hknown
  · exact absurd rfl hknown
  · next hash hhash =>
    rw [hhash] at hle
    obtain rfl := getBlockHash_onChain hchain hpos hhash
    split at hknown
    · exact absurd rfl hknown
    · next rank hfound =>
      simp only [hfound, instantXSignaturesTotal] at hle
      obtain ⟨hlt, hvin, -⟩ := List.findIdx?_eq_some_iff_getElem.mp hfound
      simp only [decide_eq_true_eq] at hvin
      rw [← hvin]
      refine List.mem_map_of_mem (List.mem_take_iff_getElem.mpr ⟨rank, ?_, rfl⟩)
      omega

/-! ### The heights of locks -/

/-- A lock has the height zero until its request is processed, and then a positive one. -/
def HeightsNonneg (ix : InstantX) : Prop :=
  ∀ h lock, ix.mapTxLocks.lookup h = some lock → 0 ≤ lock.nBlockHeight

section

variable (h : HeightsNonneg ix)

include h

theorem HeightsNonneg.sameLocks (hs : SameLocks ix ix') : HeightsNonneg ix' := by
  intro k lock' hlookup
  obtain ⟨lock, hlock, heq⟩ := hs.lookup hlookup
  rw [(undated_eq heq).1]
  exact h k lock hlock

theorem HeightsNonneg.addVote (c : IxCtx) (vote : CConsensusVote) :
    HeightsNonneg (addVote c ix vote).2 := by
  intro k lock' hlookup
  rcases addVote_lock c ix vote hlookup with hzero | ⟨lock, hlock, heq⟩
  · exact hzero.ge
  · rw [heq]
    exact h k lock hlock

theorem HeightsNonneg.createNewLock (env : Env) (c : IxCtx) (node : Node)
    (tx : CTransaction) : HeightsNonneg (createNewLock env c node ix tx).2 := by
  intro k lock hlookup
  by_cases hold : OldInputs c node tx
  · by_cases hk : k = env.getHash tx
    · obtain ⟨lock', hlock', hheight⟩ := createNewLock_old env ix hold
      rw [hk, hlock', Option.some.injEq] at hlookup
      rw [← hlookup, hheight]
      exact (createNewLock_pos env ix hold).le
    · rw [(createNewLock_frame env c node ix tx).2.2.2 k hk] at hlookup
      exact h k lock hlookup
  · rw [createNewLock_new hold] at hlookup
    exact h k lock hlookup

theorem HeightsNonneg.clean (c : IxCtx) (node : Node) :
    HeightsNonneg (cleanTransactionLocksList c node ix) := by
  unfold cleanTransactionLocksList
  split_ifs
  · exact h
  · exact fun k lock hlookup => h k lock ((mapTxLocks_clean _ ix).mp hlookup).1

theorem HeightsNonneg.lockVote (hok : processLockVote env c ix vote = some ix') :
    HeightsNonneg ix' := by
  rcases processLockVote_cases hok with ⟨-, rfl⟩ | ⟨-, -, rfl⟩ | ⟨-, -, ix1, rfl, hcomplete⟩
  · exact h
  · exact h
  · have hstored : HeightsNonneg (ix.storeVote vote) := h
    have hadded := hstored.addVote c vote
    have h1 : HeightsNonneg ix1 := by
      rcases hcomplete with ⟨-, hcompleted⟩ | ⟨-, rfl⟩
      · exact hadded.sameLocks (sameLocks_completeLock hcompleted)
      · exact hadded
    exact h1.sameLocks (sameLocks_noteUnknownVote c ix1 vote)

theorem HeightsNonneg.request
    (hok : processLockRequest env c node ix tx = some (node', ix')) : HeightsNonneg ix' := by
  rcases processLockRequest_cases hok with ⟨-, -, rfl⟩ | ⟨-, -, ix1, rfl, rfl⟩ | ⟨-, -, hreject⟩
  · exact h
  · exact ((h.createNewLock env c node tx).sameLocks (sameLocks_doConsensusVote env c _ tx _)).sameLocks
      (.of_eq rfl rfl)
  · exact (h.createNewLock env c node tx).sameLocks (sameLocks_rejectRequest hreject)

end

theorem ixRun_heights {events : List IxEvent} (hrun : events.foldlM (ixStep env) {} = some ix) :
    HeightsNonneg ix := by
  refine Run.inv_of_foldlM events (fun {ix e ix'} _ h hstep => ?_) (fun h lock hlookup => by cases hlookup)
    hrun
  rcases ixStep_cases hstep with rfl | ⟨c, node, tx, node', -, -, hrequest⟩ | ⟨c, node, vote, -, -, hvote⟩ |
    ⟨c, node, -, rfl⟩
  · exact h
  · exact h.request hrequest
  · exact h.lockVote hvote
  · exact h.clean c node

/-! ### Quorums -/

theorem exists_mem_both {α : Type} {l l' top : List α} (hl : l.Nodup) (hl' : l'.Nodup) (hsub : l ⊆ top)
    (hsub' : l' ⊆ top) (hlen : top.length < l.length + l'.length) : ∃ a ∈ l, a ∈ l' := by
  by_contra hnone
  have hdisjoint : l.Disjoint l' := fun a ha ha' => hnone ⟨a, ha, ha'⟩
  have hnodup : (l ++ l').Nodup := hl.append hl' hdisjoint
  have hle := (hnodup.subperm (List.append_subset.mpr ⟨hsub, hsub'⟩)).length_le
  rw [List.length_append] at hle
  omega

/-- The votes that a message may add to a lock: from the top 15 at its height, and signed. -/
def CountedVote (top : Int → List CTxIn) (Signed : COutPoint → Uint256 → Prop) (vote : CConsensusVote) :
    Prop :=
  (0 < vote.nBlockHeight → vote.vinMasternode ∈ top vote.nBlockHeight) ∧
    Signed vote.vinMasternode.prevout vote.txHash

/-- The masternodes whose votes a lock counts. -/
theorem countedVotes_top {top : Int → List CTxIn} {Signed : COutPoint → Uint256 → Prop}
    (hinv : VotesInv (CountedVote top Signed) ix) {h : Uint256} {lock : CTransactionLock}
    (hlock : ix.mapTxLocks.lookup h = some lock) (hpos : 0 < lock.nBlockHeight) :
    (lock.countedVotes.map CConsensusVote.vinMasternode).Nodup ∧
      lock.countedVotes.map CConsensusVote.vinMasternode ⊆ top lock.nBlockHeight ∧
      ∀ vin ∈ lock.countedVotes.map CConsensusVote.vinMasternode, Signed vin.prevout h := by
  have hmem : ∀ v ∈ lock.countedVotes, v ∈ ix.votesOf h ∧ v.nBlockHeight = lock.nBlockHeight := by
    intro v hv
    obtain ⟨hv, hheight⟩ := List.mem_filter.mp hv
    rw [InstantX.votesOf, hlock]
    exact ⟨hv, of_decide_eq_true hheight⟩
  refine ⟨?_, fun vin hvin => ?_, fun vin hvin => ?_⟩
  · have hnodup := countedVotes_outpoints hinv hlock
    rw [← Function.comp_def, ← List.map_map] at hnodup
    exact hnodup.of_map _
  · obtain ⟨v, hv, rfl⟩ := List.mem_map.mp hvin
    obtain ⟨hvote, hheight⟩ := hmem v hv
    rw [← hheight]
    exact (hinv.good h v hvote).1 (hheight ▸ hpos)
  · obtain ⟨v, hv, rfl⟩ := List.mem_map.mp hvin
    rw [← hinv.txHash h v (hmem v hv).1]
    exact (hinv.good h v (hmem v hv).1).2

/-- **Quorum safety.**  If no masternode signs a vote for both of two transactions, their locks are not both
complete while they have the same height. -/
theorem quorumSafe (Signed : COutPoint → Uint256 → Prop) {events : List IxEvent}
    (hranked : ∀ c node msg, .message c node msg ∈ events →
      RankedBy env hash1 sort vMasternodes chain c node)
    (hsigned : ∀ c node msg, .message c node msg ∈ events → ∀ vote, c.signatureValid vote = true →
      Signed vote.vinMasternode.prevout vote.txHash)
    {hashA hashB : Uint256} (hone : ∀ o, ¬ (Signed o hashA ∧ Signed o hashB))
    (hrun : events.foldlM (ixStep env) {} = some ix) {lockA lockB : CTransactionLock}
    (hA : ix.mapTxLocks.lookup hashA = some lockA) (hB : ix.mapTxLocks.lookup hashB = some lockB)
    (hheight : lockA.nBlockHeight = lockB.nBlockHeight) :
    ¬ (instantXSignaturesRequired ≤ lockA.countSignatures ∧
      instantXSignaturesRequired ≤ lockB.countSignatures) := by
  rintro ⟨hcountA, hcountB⟩
  have hinv : VotesInv (CountedVote (fun nBlockHeight =>
      topMasternodes env hash1 sort vMasternodes (chain (nBlockHeight - 1))) Signed) ix := by
    refine ixRun_votes events (votesInv_empty _) (fun c node vote hmem hpass => ⟨?_, ?_⟩) hrun
    · exact mem_topMasternodes (hranked c node _ hmem) hpass
    · rw [passesChecks, Bool.and_eq_true] at hpass
      exact hsigned c node _ hmem vote hpass.2
  have hheights := ixRun_heights hrun
  have hneA := nBlockHeight_ne_zero hcountA
  have hneB := nBlockHeight_ne_zero hcountB
  have hposA : 0 < lockA.nBlockHeight := lt_of_le_of_ne (hheights _ _ hA) hneA.symm
  have hposB : 0 < lockB.nBlockHeight := lt_of_le_of_ne (hheights _ _ hB) hneB.symm
  obtain ⟨hnodupA, hsubA, hsignedA⟩ := countedVotes_top hinv hA hposA
  obtain ⟨hnodupB, hsubB, hsignedB⟩ := countedVotes_top hinv hB hposB
  rw [hheight] at hsubA
  -- two of the quorums of 10 of the same 15 masternodes meet
  rw [countSignatures_eq hneA, instantXSignaturesRequired] at hcountA
  rw [countSignatures_eq hneB, instantXSignaturesRequired] at hcountB
  have htop : (topMasternodes env hash1 sort vMasternodes (chain (lockB.nBlockHeight - 1))).length ≤ 15 := by
    rw [topMasternodes, List.length_map]
    exact List.length_take_le 15 _
  obtain ⟨vin, hvinA, hvinB⟩ := exists_mem_both hnodupA hnodupB hsubA hsubB (by
    rw [List.length_map, List.length_map]
    omega)
  exact hone vin.prevout ⟨hsignedA vin hvinA, hsignedB vin hvinB⟩

/-! ### Samples -/

def scoreSort : ScoreSort where
  sort := List.insertionSort fun a b => b.1 ≤ a.1
  perm := List.perm_insertionSort _
  sorted l := by
    have : Std.Total fun a b : Nat × CTxIn => b.1 ≤ a.1 := ⟨fun a b => le_total b.1 a.1⟩
    have : IsTrans (Nat × CTxIn) fun a b => b.1 ≤ a.1 := ⟨fun a b c hab hbc => hbc.trans hab⟩
    exact List.pairwise_insertionSort _ l

def quorumMasternodes : List CMasternode :=
  (List.range 30).map fun i => ⟨⟨⟨i, 0⟩, [], uintMax⟩, minInstantXProtoVersion, true⟩

/-- The blocks at the heights 4 and 5 are those that the samples ask for. -/
def quorumChain (nHeight : Int) : Uint256 :=
  if nHeight = 4 then 0 else if nHeight = 5 then 2 ^ 32 - 15 else 105

def quorumCache : StdMap Int Uint256 := ((∅ : StdMap Int Uint256).insert 5 0).insert 6 (2 ^ 32 - 15)

def quorumNode : Node :=
  { sampleNode [{ fundingIndex with nHeight := 21 }, { fundingIndex with hashBlock := 104 },
      { fundingIndex with hashBlock := 103, nHeight := 2 }] with
    nBestHeight := 21 }

def quorumCtx (signed : COutPoint → Uint256 → Bool) : IxCtx :=
  { lockCtx fun h => if h = 1001 then some (fundingTx, 104) else if h = 1002 then some (fundingTx, 103) else none with
    getMasternodeRank := fun vin nBlockHeight =>
      getMasternodeRank (sampleEnv []) (fun _ => 0) scoreSort quorumNode quorumCache quorumMasternodes vin
        nBlockHeight minInstantXProtoVersion
    signatureValid := fun vote => signed vote.vinMasternode.prevout vote.txHash }

theorem quorumCtx_ranked (signed : COutPoint → Uint256 → Bool) :
    RankedBy (sampleEnv []) (fun _ => 0) scoreSort quorumMasternodes quorumChain (quorumCtx signed)
      quorumNode := by
  refine ⟨quorumCache, ⟨fun pindexBest hbest k hash hread => ?_, fun h hash _ hlookup => ?_⟩, fun _ _ => rfl⟩
  · have hbest : pindexBest = { fundingIndex with nHeight := 21 } := (Option.some.inj hbest).symm
    subst hbest
    cases k with
    | zero => exact (Option.some.inj hread).symm
    | succ k => cases hread
  · unfold quorumCache at hlookup
    by_cases h6 : h = 6
    · rw [h6, AList.lookup_insert, Option.some.injEq] at hlookup
      rw [h6, ← hlookup]
      rfl
    · rw [AList.lookup_insert_ne h6] at hlookup
      by_cases h5 : h = 5
      · rw [h5, AList.lookup_insert, Option.some.injEq] at hlookup
        rw [h5, ← hlookup]
        rfl
      · rw [AList.lookup_insert_ne h5] at hlookup
        cases hlookup

def rivalTx (prevouts : List COutPoint) : CTransaction :=
  { lockTx ⟨1001, 0⟩ with
    nTime := 13
    vin := prevouts.map fun o => ⟨o, [], uintMax⟩ }

/-- Masternodes vote for a rival, the payment is requested, others vote for it, and the rival is
requested. -/
def quorumEvents (signed : COutPoint → Uint256 → Bool) (rival : List COutPoint)
    (rivalVotes votes : List CConsensusVote) : List IxEvent :=
  (rivalVotes.map IxMessage.txlvote ++ IxMessage.txlreq (lockTx ⟨1001, 0⟩) :: votes.map IxMessage.txlvote ++
    [IxMessage.txlreq (rivalTx rival)]).map fun msg => .message (quorumCtx signed) quorumNode msg

def quorumVotes (indices : List Nat) (txHash : Uint256) (nBlockHeight : Int) : List CConsensusVote :=
  indices.map fun i => voteOf i 0 txHash nBlockHeight

def signedFrom (i : Nat) (o : COutPoint) (h : Uint256) : Bool :=
  (h = 1012 && i ≤ o.hash) || (h = 1013 && o.hash < i)

theorem signedFrom_one (i : Nat) (o : COutPoint) :
    ¬ (signedFrom i o 1012 = true ∧ signedFrom i o 1013 = true) := by
  simp only [signedFrom, decide_true, Bool.true_and, Nat.reduceEqDiff, decide_false, Bool.false_and,
    Bool.or_false, Bool.false_or, decide_eq_true_eq, not_and, not_lt, imp_self]

def lockSummary (ix : InstantX) : List (Option (Int × Int)) :=
  [1012, 1013].map fun h => (ix.mapTxLocks.lookup h).map fun lock => (lock.nBlockHeight, lock.countSignatures)

theorem quorumSafe_same : ∃ ix lockA lockB,
    (quorumEvents (signedFrom 20) [⟨1001, 0⟩] (quorumVotes [15, 16, 17, 18] 1013 5)
      (quorumVotes (List.range' 20 10) 1012 5)).foldlM (ixStep (sampleEnv [])) {} = some ix ∧
    ix.mapTxLocks.lookup 1012 = some lockA ∧ ix.mapTxLocks.lookup 1013 = some lockB ∧
    ¬ (instantXSignaturesRequired ≤ lockA.countSignatures ∧
      instantXSignaturesRequired ≤ lockB.countSignatures) := by
  have hsummary : ((quorumEvents (signedFrom 20) [⟨1001, 0⟩] (quorumVotes [15, 16, 17, 18] 1013 5)
      (quorumVotes (List.range' 20 10) 1012 5)).foldlM (ixStep (sampleEnv [])) {}).map lockSummary =
      some [some (5, 10), some (5, 4)] := by decide
  obtain ⟨ix, hrun, hlocks⟩ := Option.map_eq_some_iff.mp hsummary
  simp only [lockSummary, List.map_cons, List.map_nil, List.cons.injEq, Option.map_eq_some_iff,
    Prod.mk.injEq, and_true] at hlocks
  obtain ⟨⟨lockA, hA, hheightA, -⟩, lockB, hB, hheightB, -⟩ := hlocks
  refine ⟨ix, lockA, lockB, hrun, hA, hB, ?_⟩
  have hmessage : ∀ c node msg, .message c node msg ∈ quorumEvents (signedFrom 20) [⟨1001, 0⟩]
      (quorumVotes [15, 16, 17, 18] 1013 5) (quorumVotes (List.range' 20 10) 1012 5) →
      RankedBy (sampleEnv []) (fun _ => 0) scoreSort quorumMasternodes quorumChain c node ∧
        ∀ vote, c.signatureValid vote = true →
          signedFrom 20 vote.vinMasternode.prevout vote.txHash = true := by
    intro c node msg hmem
    obtain ⟨msg', -, heq⟩ := List.mem_map.mp hmem
    cases heq
    exact ⟨quorumCtx_ranked _, fun _ hvalid => hvalid⟩
  exact quorumSafe (fun o h => signedFrom 20 o h = true) (fun c node msg hmem => (hmessage c node msg hmem).1)
    (fun c node msg hmem => (hmessage c node msg hmem).2) (signedFrom_one 20) hrun hA hB
    (hheightA.trans hheightB.symm)

/-- **Two complete locks.**  A rival with another first input is judged by other masternodes. -/
theorem quorumSafe_conflict :
    (⟨1001, 0⟩ : COutPoint) ∈ (lockTx ⟨1001, 0⟩).prevouts ∧
    (⟨1001, 0⟩ : COutPoint) ∈ (rivalTx [⟨1002, 0⟩, ⟨1001, 0⟩]).prevouts ∧
    RankedBy (sampleEnv []) (fun _ => 0) scoreSort quorumMasternodes quorumChain
      (quorumCtx (signedFrom 15)) quorumNode ∧
    (∀ o, ¬ (signedFrom 15 o 1012 = true ∧ signedFrom 15 o 1013 = true)) ∧
    ((quorumEvents (signedFrom 15) [⟨1002, 0⟩, ⟨1001, 0⟩] (quorumVotes (List.range 10) 1013 6)
      (quorumVotes (List.range' 15 10) 1012 5)).foldlM (ixStep (sampleEnv [])) {}).map lockSummary =
      some [some (5, 10), some (6, 10)] :=
  ⟨by decide, by decide, quorumCtx_ranked _, signedFrom_one 15, by decide⟩

end Sphinx
