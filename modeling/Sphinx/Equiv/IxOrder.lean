import Sphinx.Equiv.IxForged
import Sphinx.Equiv.IxRequests
import Sphinx.Equiv.PoolChain

/-!
# The order of a request and its votes

A lock is completed by a vote only, so the request must not come last.

* `newVotes`: the votes that are added to their lock, those with a new id;
* `waiting_run`: votes before the request are added to a lock without a height, which is never complete;
* `voting_run`: each vote after the request completes the lock if there are enough of them;
* `lockOrder_iff`: the inputs are locked exactly if enough votes are new and one of these arrives after the
  request.
-/

namespace Sphinx

variable {env : Env} {c : IxCtx} {node : Node} {ix ix' : InstantX} {vote : CConsensusVote}
  {tx : CTransaction} {h : Uint256} {nBlockHeight : Int}
variable {ix0 : InstantX}

/-- The ids of the votes that have been seen. -/
def InstantX.seenIds (ix : InstantX) (id : Uint256) : Bool := (ix.mapTxLockVote.lookup id).isSome

/-- The block height of the lock of a transaction, zero if there is no lock. -/
def InstantX.heightOf (ix : InstantX) (h : Uint256) : Int :=
  (ix.mapTxLocks.lookup h).elim 0 CTransactionLock.nBlockHeight

/-- The votes with new ids, of votes that arrive one after the other. -/
def newVotes (seen : Uint256 → Bool) : List CConsensusVote → List CConsensusVote
  | [] => []
  | vote :: votes =>
    if seen vote.getHash then newVotes seen votes
    else vote :: newVotes (fun id => seen id || decide (id = vote.getHash)) votes

/-- The ids seen after votes have arrived. -/
def seenAfter (seen : Uint256 → Bool) (votes : List CConsensusVote) (id : Uint256) : Bool :=
  seen id || decide (id ∈ votes.map CConsensusVote.getHash)

/-! ### A vote that passes the checks -/

theorem seenIds_storeVote (ix : InstantX) (vote : CConsensusVote) :
    (ix.storeVote vote).seenIds = fun id => ix.seenIds id || decide (id = vote.getHash) := by
  funext id
  exact MapLoop.isSome_lookup_insert vote ix.mapTxLockVote vote.getHash id

theorem heightOf_addVote (c : IxCtx) (ix : InstantX) (vote : CConsensusVote) (h : Uint256) :
    (addVote c ix vote).2.heightOf h = ix.heightOf h := by
  by_cases hh : h = vote.txHash
  · subst hh
    rw [InstantX.heightOf, lookup_addVote]
    simp only [addVote, CTransactionLock.addSignature, Option.elim_some, InstantX.heightOf]
    cases ix.mapTxLocks.lookup vote.txHash <;> rfl
  · rw [InstantX.heightOf, addVote, AList.lookup_insert_ne hh]
    rfl

theorem addVote_fst (c : IxCtx) (ix : InstantX) (vote : CConsensusVote) :
    (addVote c ix vote).1.nBlockHeight = ix.heightOf vote.txHash ∧
      (addVote c ix vote).1.vecConsensusVotes = ix.votesOf vote.txHash ++ [vote] := by
  simp only [addVote, CTransactionLock.addSignature, InstantX.heightOf, InstantX.votesOf]
  cases ix.mapTxLocks.lookup vote.txHash <;> exact ⟨rfl, rfl⟩

/-- A vote completes its lock if the lock has a height and there are enough votes for this height. -/
theorem completes_iff (hall : ∀ v ∈ ix.votesOf vote.txHash ++ [vote], v.nBlockHeight = nBlockHeight)
    (hheight : ix.heightOf vote.txHash = 0 ∨ ix.heightOf vote.txHash = nBlockHeight) :
    Completes c (ix.storeVote vote) vote ↔
      ix.heightOf vote.txHash ≠ 0 ∧ 10 ≤ (ix.votesOf vote.txHash).length + 1 := by
  obtain ⟨hfst, hvotes⟩ := addVote_fst c (ix.storeVote vote) vote
  have hfst : (addVote c (ix.storeVote vote) vote).1.nBlockHeight = ix.heightOf vote.txHash := hfst
  have hvotes : (addVote c (ix.storeVote vote) vote).1.vecConsensusVotes = ix.votesOf vote.txHash ++ [vote] :=
    hvotes
  rw [Completes, CTransactionLock.countSignatures, hfst, hvotes, instantXSignaturesRequired]
  split_ifs with hzero
  · exact iff_of_false (by omega) fun hne => hne.1 hzero
  · have hcount : (ix.votesOf vote.txHash ++ [vote]).countP
        (fun v => decide (v.nBlockHeight = ix.heightOf vote.txHash)) =
        (ix.votesOf vote.txHash).length + 1 := by
      rw [List.countP_eq_length.mpr, List.length_append, List.length_singleton]
      intro v hv
      rw [hall v hv, hheight.resolve_left hzero, decide_eq_true rfl]
    rw [hcount]
    exact ⟨fun hle => ⟨hzero, by omega⟩, fun hle => by omega⟩

theorem processLockVote_seen (hseen : ix.seenIds vote.getHash = true) :
    processLockVote env c ix vote = some ix :=
  (processLockVote_eq env c ix vote).trans (if_pos hseen)

theorem processLockVote_new (hseen : ix.seenIds vote.getHash = false) :
    processLockVote env c ix vote = (processConsensusVote env c (ix.storeVote vote) vote).map fun r =>
      if r.1 then noteUnknownVote c r.2 vote else r.2 := by
  have hunseen : ¬ (ix.mapTxLockVote.lookup vote.getHash).isSome = true :=
    fun hsome => Bool.false_ne_true (hseen.symm.trans hsome)
  exact (processLockVote_eq env c ix vote).trans (if_neg hunseen)

theorem processLockVote_pending (hseen : ix.seenIds vote.getHash = false)
    (hpass : passesChecks c vote = true) (hpending : ¬ Completes c (ix.storeVote vote) vote) :
    processLockVote env c ix vote = some (noteUnknownVote c (addVote c (ix.storeVote vote) vote).2 vote) := by
  rw [Completes] at hpending
  rw [processLockVote_new hseen, processConsensusVote_passed hpass, if_neg hpending]
  rfl

theorem processLockVote_completes {ix1 : InstantX} (hseen : ix.seenIds vote.getHash = false)
    (hpass : passesChecks c vote = true) (hcomplete : Completes c (ix.storeVote vote) vote)
    (hok : completeLock env c (addVote c (ix.storeVote vote) vote).2
      (addVote c (ix.storeVote vote) vote).1 vote = some ix1) :
    processLockVote env c ix vote = some (noteUnknownVote c ix1 vote) := by
  rw [Completes] at hcomplete
  rw [processLockVote_new hseen, processConsensusVote_passed hpass, if_pos hcomplete, hok]
  rfl

theorem seenIds_noteUnknownVote (c : IxCtx) (ix : InstantX) (vote : CConsensusVote) :
    (noteUnknownVote c ix vote).seenIds = ix.seenIds := by
  simp only [noteUnknownVote]
  split_ifs <;> rfl

theorem heightOf_congr (hlocks : ix'.mapTxLocks = ix.mapTxLocks) (h : Uint256) :
    ix'.heightOf h = ix.heightOf h ∧ ix'.votesOf h = ix.votesOf h := by
  rw [InstantX.heightOf, InstantX.votesOf, hlocks]
  exact ⟨rfl, rfl⟩

/-! ### Votes before the request -/

/-- A message `txlvote`, and what the node is like when it arrives. -/
structure VoteMessage where
  c : IxCtx
  node : Node
  vote : CConsensusVote

def VoteMessage.event (m : VoteMessage) : IxEvent := .message m.c m.node (.txlvote m.vote)

/-- The vote is looked at, passes the checks, and is for the transaction at this height. -/
structure VoteMessage.Valid (h : Uint256) (nBlockHeight : Int) (m : VoteMessage) : Prop where
  active : m.c.active = true
  passes : passesChecks m.c m.vote = true
  txHash : m.vote.txHash = h
  height : m.vote.nBlockHeight = nBlockHeight

variable {m : VoteMessage}

theorem ixStep_vote (hactive : m.c.active = true) :
    ixStep env ix m.event = processLockVote env m.c ix m.vote := by
  simp only [ixStep, VoteMessage.event, processMessageInstantX_eq, hactive, if_true, Option.map_map]
  exact Option.map_id' ..

/-- The request has not been processed yet: the lock has no height, and nothing else is known. -/
structure Waiting (ix0 : InstantX) (h : Uint256) (nBlockHeight : Int) (ix : InstantX) : Prop where
  keyed : ∀ lock, ix.mapTxLocks.lookup h = some lock → lock.txHash = h
  height : ix.heightOf h = 0
  votes : ∀ v ∈ ix.votesOf h, v.nBlockHeight = nBlockHeight
  req : ix.mapTxLockReq = ix0.mapTxLockReq
  rejected : ix.mapTxLockReqRejected = ix0.mapTxLockReqRejected
  inputs : ix.mapLockedInputs = ix0.mapLockedInputs

/-- What a vote does to the lock, whether or not it completes it. -/
theorem added_view (c : IxCtx) (ix : InstantX) (vote : CConsensusVote) (ix1 : InstantX)
    (hlocks : ix1.mapTxLocks = (addVote c (ix.storeVote vote) vote).2.mapTxLocks)
    (hvotes : ix1.mapTxLockVote = (ix.storeVote vote).mapTxLockVote) :
    (noteUnknownVote c ix1 vote).heightOf vote.txHash = ix.heightOf vote.txHash ∧
    (noteUnknownVote c ix1 vote).votesOf vote.txHash = ix.votesOf vote.txHash ++ [vote] ∧
    (noteUnknownVote c ix1 vote).seenIds = fun id => ix.seenIds id || decide (id = vote.getHash) := by
  obtain ⟨hheight, hvote⟩ := heightOf_congr
    ((noteUnknownVote_frame c ix1 vote).1.trans hlocks) vote.txHash
  refine ⟨hheight.trans (heightOf_addVote c (ix.storeVote vote) vote vote.txHash), ?_, ?_⟩
  · rw [hvote, votesOf_addVote, if_pos rfl]
    rfl
  · rw [seenIds_noteUnknownVote, ← seenIds_storeVote]
    funext id
    rw [InstantX.seenIds, hvotes]
    rfl

theorem forall_mem_snoc {P : CConsensusVote → Prop} {votes : List CConsensusVote}
    (h : ∀ v ∈ votes, P v) (hv : P vote) : ∀ v ∈ votes ++ [vote], P v := by
  intro v hmem
  rcases List.mem_append.mp hmem with hmem | hmem
  · exact h v hmem
  · exact List.mem_singleton.mp hmem ▸ hv

/-- A vote that arrives before the request. -/
theorem Waiting.lockVote (env : Env) (hw : Waiting ix0 h nBlockHeight ix)
    (hm : m.Valid h nBlockHeight) (hseen : ix.seenIds m.vote.getHash = false) :
    ∃ ix', ixStep env ix m.event = some ix' ∧ Waiting ix0 h nBlockHeight ix' ∧
      ix'.votesOf h = ix.votesOf h ++ [m.vote] ∧
      ix'.seenIds = fun id => ix.seenIds id || decide (id = m.vote.getHash) := by
  obtain ⟨hactive, hpass, rfl, hheight⟩ := hm
  have hall := forall_mem_snoc hw.votes hheight
  have hpending : ¬ Completes m.c (ix.storeVote m.vote) m.vote := by
    rw [completes_iff hall (.inl hw.height)]
    exact fun hne => hne.1 hw.height
  have hview := added_view m.c ix m.vote (addVote m.c (ix.storeVote m.vote) m.vote).2 rfl rfl
  obtain ⟨hnlocks, hnreq, hnrejected, hnlocked⟩ :=
    noteUnknownVote_frame m.c (addVote m.c (ix.storeVote m.vote) m.vote).2 m.vote
  obtain ⟨hheight', hvotes', hseen'⟩ := hview
  rw [ixStep_vote hactive, processLockVote_pending hseen hpass hpending]
  refine ⟨_, rfl, ⟨fun lock hlock => ?_, hheight'.trans hw.height, ?_, hnreq.trans hw.req,
    hnrejected.trans hw.rejected, hnlocked.trans hw.inputs⟩, hvotes', hseen'⟩
  · rw [hnlocks, lookup_addVote] at hlock
    exact Option.some.inj hlock ▸ addVote_txHash m.c (ix.storeVote m.vote) hw.keyed
  · rw [hvotes']
    exact hall

/-- **Votes before the request** are kept. -/
theorem waiting_run (env : Env) (msgs : List VoteMessage) :
    ∀ {ix : InstantX}, Waiting ix0 h nBlockHeight ix → (∀ m ∈ msgs, m.Valid h nBlockHeight) →
      ∃ ix', (msgs.map VoteMessage.event).foldlM (ixStep env) ix = some ix' ∧
        Waiting ix0 h nBlockHeight ix' ∧
        ix'.votesOf h = ix.votesOf h ++ newVotes ix.seenIds (msgs.map VoteMessage.vote) ∧
        ix'.seenIds = seenAfter ix.seenIds (msgs.map VoteMessage.vote) := by
  induction msgs with
  | nil =>
    intro ix hw _
    refine ⟨ix, rfl, hw, (List.append_nil _).symm, ?_⟩
    funext id
    simp [seenAfter]
  | cons m msgs ih =>
    intro ix hw hvalid
    rw [List.forall_mem_cons] at hvalid
    cases hseen : ix.seenIds m.vote.getHash with
    | true =>
      obtain ⟨ix', hrun, hw', hvotes, hids⟩ := ih hw hvalid.2
      refine ⟨ix', ?_, hw', ?_, ?_⟩
      · rw [List.map_cons, List.foldlM_cons, ixStep_vote hvalid.1.active, processLockVote_seen hseen]
        exact hrun
      · rw [hvotes, List.map_cons, newVotes, if_pos hseen]
      · rw [hids]
        funext id
        by_cases hid : id = m.vote.getHash
        · simp [seenAfter, hid, hseen]
        · simp [seenAfter, hid]
    | false =>
      obtain ⟨ix1, hstep, hw1, hvotes1, hids1⟩ := hw.lockVote env hvalid.1 hseen
      obtain ⟨ix', hrun, hw', hvotes, hids⟩ := ih hw1 hvalid.2
      refine ⟨ix', ?_, hw', ?_, ?_⟩
      · rw [List.map_cons, List.foldlM_cons, hstep]
        exact hrun
      · rw [hvotes, hvotes1, hids1, List.map_cons, newVotes, hseen, if_neg Bool.false_ne_true,
          List.append_assoc, List.singleton_append]
      · rw [hids, hids1]
        funext id
        simp [seenAfter, Bool.or_assoc]

/-! ### The request -/

theorem createNewLock_fst (env : Env) (c : IxCtx) (node : Node) (ix : InstantX) (tx : CTransaction) :
    (createNewLock env c node ix tx).1 =
      (inputAgeLoop c node tx.vin.reverse 0).elim 0 fun nTxAge => bestHeight node - nTxAge + 4 := by
  unfold createNewLock
  cases inputAgeLoop c node tx.vin.reverse 0 <;> rfl

theorem bestHeight_nonneg (node : Node) : 0 ≤ bestHeight node := by
  unfold bestHeight
  split
  · exact le_refl _
  · exact Int.natCast_nonneg _

theorem getInputAge_le (c : IxCtx) (node : Node) (i : CTxIn) : getInputAge c node i ≤ bestHeight node := by
  have hbest := bestHeight_nonneg node
  unfold getInputAge
  split
  · exact hbest
  · split
    · exact hbest
    · omega

theorem inputAgeLoop_le {nTxAge : Int} : ∀ (l : List CTxIn) (nAge : Int), nAge ≤ bestHeight node →
    inputAgeLoop c node l nAge = some nTxAge → nTxAge ≤ bestHeight node := by
  intro l
  induction l with
  | nil => exact fun nAge hle h => Option.some.inj h ▸ hle
  | cons i l ih =>
    intro nAge _ h
    rw [inputAgeLoop] at h
    split_ifs at h
    exact ih _ (getInputAge_le c node i) h

/-- The height of a lock is that of a block, or of the best chain, and four more. -/
theorem createNewLock_pos (env : Env) (ix : InstantX) (hold : OldInputs c node tx) :
    0 < (createNewLock env c node ix tx).1 := by
  obtain ⟨nTxAge, hage⟩ := Option.isSome_iff_exists.mp hold
  have hle := inputAgeLoop_le _ 0 (bestHeight_nonneg node) hage
  rw [createNewLock_fst, hage, Option.elim_some]
  omega

theorem createNewLock_heightOf (env : Env) (ix : InstantX) (hold : OldInputs c node tx) :
    (createNewLock env c node ix tx).2.heightOf (env.getHash tx) = (createNewLock env c node ix tx).1 := by
  obtain ⟨lock, hlock, hheight⟩ := createNewLock_old env ix hold
  rw [InstantX.heightOf, hlock]
  exact hheight

/-- The request has been processed.  The inputs are locked if `fLocked`. -/
structure Voting (tx : CTransaction) (h : Uint256) (nBlockHeight : Int) (fLocked : Bool) (ix : InstantX) :
    Prop where
  keyed : ∀ lock, ix.mapTxLocks.lookup h = some lock → lock.txHash = h
  height : ix.heightOf h = nBlockHeight
  votes : ∀ v ∈ ix.votesOf h, v.nBlockHeight = nBlockHeight
  req : ix.mapTxLockReq.lookup h = some tx
  rejected : ix.mapTxLockReqRejected.lookup h = none
  inputs : ∀ o ∈ tx.prevouts, ix.mapLockedInputs.lookup o = if fLocked then some h else none

/-- The node accepts a request: it is new and well formed, its transaction goes into the pool, and its
inputs are old enough for `CreateNewLock`. -/
structure RequestAccepted (env : Env) (c : IxCtx) (node : Node) (ix : InstantX) (tx : CTransaction) :
    Prop where
  active : c.active = true
  accepts : acceptsRequest env c ix tx = true
  pool : (acceptToMemoryPool env (ix.ctx c.ctx) node tx).isOk = true
  old : OldInputs c node tx

theorem RequestAccepted.prevouts_ne_nil (hr : RequestAccepted env c node ix tx) : tx.prevouts ≠ [] := by
  obtain ⟨node', hok⟩ := exists_of_isOk hr.pool
  have hne := (CTransaction.checkTransaction_ok (acceptToMemoryPool_ok hok).checked).1
  exact fun hnil => hne (List.map_eq_nil_iff.mp hnil)

theorem waiting_start {h : Uint256} (hlock : ix.mapTxLocks.lookup h = none) :
    Waiting ix h nBlockHeight ix := by
  have hnone : ix.votesOf h = [] := by rw [InstantX.votesOf, hlock, Option.elim_none]
  refine ⟨fun lock hlookup => ?_, ?_, fun v hv => ?_, rfl, rfl, rfl⟩
  · rw [hlock] at hlookup
    cases hlookup
  · rw [InstantX.heightOf, hlock, Option.elim_none]
  · rw [hnone] at hv
    cases hv

theorem Waiting.request (hw : Waiting ix0 (env.getHash tx) nBlockHeight ix)
    (hr : RequestAccepted env c node ix0 tx)
    (hheight : (createNewLock env c node ix0 tx).1 = nBlockHeight)
    (hfree : ∀ o ∈ tx.prevouts, ix0.mapLockedInputs.lookup o = none) :
    ∃ ix', ixStep env ix (.message c node (.txlreq tx)) = some ix' ∧
      Voting tx (env.getHash tx) nBlockHeight false ix' ∧
      ix'.votesOf (env.getHash tx) = ix.votesOf (env.getHash tx) ∧
      ix'.seenIds = seenAfter ix.seenIds (ownVote env c tx nBlockHeight).toList := by
  have haccepts : acceptsRequest env c ix tx = true := by
    rw [← hr.accepts, acceptsRequest, acceptsRequest, hw.req, hw.rejected]
  have hheight' : (createNewLock env c node ix tx).1 = nBlockHeight := by
    rw [← hheight, createNewLock_fst, createNewLock_fst]
  obtain ⟨hclocked, hcreq, hcrejected, -⟩ := createNewLock_frame env c node ix tx
  have hctx : (createNewLock env c node ix tx).2.ctx c.ctx = ix0.ctx c.ctx := by
    rw [InstantX.ctx, InstantX.ctx, hclocked, hw.inputs]
  obtain ⟨node', hok⟩ := exists_of_isOk hr.pool
  rw [← hctx] at hok
  obtain ⟨hvotes, hseen⟩ := createNewLock_votes env c node ix tx
  obtain ⟨hdlocks, -, hdrejected, hdlocked⟩ := doConsensusVote_frame env c (createNewLock env c node ix tx).2
    tx nBlockHeight
  obtain ⟨hdheight, hdvotes⟩ := heightOf_congr hdlocks (env.getHash tx)
  have hunknown := acceptsRequest_unknown haccepts
  simp only [ixStep, processMessageInstantX_eq, hr.active, if_true, processLockRequest, haccepts,
    Bool.not_true, Bool.false_eq_true, if_false, hok, hheight', Option.map_some]
  refine ⟨_, rfl, ⟨fun lock hlock => ?_, ?_, fun v hv => hw.votes v ?_, AList.lookup_insert _, ?_,
    fun o ho => ?_⟩, hdvotes.trans (hvotes _), ?_⟩
  · rw [hdlocks] at hlock
    exact createNewLock_txHash hw.keyed lock hlock
  · exact hdheight.trans ((createNewLock_heightOf env ix hr.old).trans hheight')
  · rw [← hvotes, ← hdvotes]
    exact hv
  · rw [hdrejected, hcrejected]
    exact Option.not_isSome_iff_eq_none.mp fun hsome => hunknown (.inr hsome)
  · rw [hdlocked, hclocked, hw.inputs]
    exact hfree o ho
  · rw [doConsensusVote_eq]
    funext id
    cases ownVote env c tx nBlockHeight with
    | none => simp [seenAfter, InstantX.seenIds, hseen]
    | some own =>
      have hown := congrFun (seenIds_storeVote (createNewLock env c node ix tx).2 own) id
      refine hown.trans ?_
      simp [seenAfter, InstantX.seenIds, hseen]

/-! ### Votes after the request -/

theorem checkForConflictingLocks_none
    (hown : ∀ o ∈ tx.prevouts, ∀ k, ix.mapLockedInputs.lookup o = some k → k = env.getHash tx) :
    checkForConflictingLocks env c ix tx = (false, ix) := by
  unfold checkForConflictingLocks
  simp only
  split
  · rfl
  · next k hconflict =>
    obtain ⟨o, ho, hlookup⟩ := List.exists_of_findSome?_eq_some hconflict
    split at hlookup
    · cases hlookup
    · next k' hk' =>
      rw [if_neg (not_not.mpr (hown o ho k' hk'))] at hlookup
      cases hlookup

theorem completeLock_free {lock : CTransactionLock} (hreq : ix.mapTxLockReq.lookup vote.txHash = some tx)
    (hrejected : ix.mapTxLockReqRejected.lookup lock.txHash = none)
    (hown : ∀ o ∈ tx.prevouts, ∀ k, ix.mapLockedInputs.lookup o = some k → k = env.getHash tx) :
    completeLock env c ix lock vote = some (lockInputs ix tx vote.txHash) := by
  simp only [completeLock, hreq, Option.getD_some, insertNew_of_known hreq,
    checkForConflictingLocks_none hown]
  simp only [Bool.false_eq_true, if_false, Option.isSome_some, if_true, lockInputs, hrejected,
    Option.isSome_none]

/-- The maps after a vote, up to `noteUnknownVote`, and the inputs that are locked then. -/
theorem Voting.added {fLocked : Bool}
    (hv : Voting tx (env.getHash tx) nBlockHeight fLocked ix) (hpos : nBlockHeight ≠ 0)
    (hm : m.Valid (env.getHash tx) nBlockHeight) (hseen : ix.seenIds m.vote.getHash = false) :
    ∃ ix1 : InstantX, processLockVote env m.c ix m.vote = some (noteUnknownVote m.c ix1 m.vote) ∧
      ix1.mapTxLocks = (addVote m.c (ix.storeVote m.vote) m.vote).2.mapTxLocks ∧
      ix1.mapTxLockVote = (ix.storeVote m.vote).mapTxLockVote ∧
      ix1.mapTxLockReq = ix.mapTxLockReq ∧ ix1.mapTxLockReqRejected = ix.mapTxLockReqRejected ∧
      ∀ o ∈ tx.prevouts, ix1.mapLockedInputs.lookup o =
        if fLocked || decide (10 ≤ (ix.votesOf (env.getHash tx)).length + 1) then some (env.getHash tx)
        else none := by
  obtain ⟨-, hpass, hhash, hheight⟩ := hm
  have hcomplete : Completes m.c (ix.storeVote m.vote) m.vote ↔
      10 ≤ (ix.votesOf (env.getHash tx)).length + 1 := by
    rw [← hhash] at hv ⊢
    rw [completes_iff (forall_mem_snoc hv.votes hheight) (.inr hv.height), hv.height]
    exact and_iff_right hpos
  have hinputs : ∀ o ∈ tx.prevouts, (addVote m.c (ix.storeVote m.vote) m.vote).2.mapLockedInputs.lookup o =
      if fLocked then some (env.getHash tx) else none := hv.inputs
  by_cases hcount : 10 ≤ (ix.votesOf (env.getHash tx)).length + 1
  · have hkey : (addVote m.c (ix.storeVote m.vote) m.vote).1.txHash = env.getHash tx :=
      (addVote_txHash m.c (ix.storeVote m.vote) (hhash ▸ hv.keyed)).trans hhash
    have hok : completeLock env m.c (addVote m.c (ix.storeVote m.vote) m.vote).2
        (addVote m.c (ix.storeVote m.vote) m.vote).1 m.vote =
        some (lockInputs (addVote m.c (ix.storeVote m.vote) m.vote).2 tx m.vote.txHash) := by
      refine completeLock_free (hhash ▸ hv.req) (hkey ▸ hv.rejected) fun o ho k hk => ?_
      rw [hinputs o ho] at hk
      split_ifs at hk
      exact (Option.some.inj hk).symm
    refine ⟨_, processLockVote_completes hseen hpass (hcomplete.mpr hcount) hok, rfl, rfl, rfl, rfl,
      fun o ho => ?_⟩
    rw [lockInputs, MapLoop.lookup_foldl_insertNew, if_pos ho, hinputs o ho, hhash, decide_eq_true hcount]
    cases fLocked <;> rfl
  · refine ⟨_, processLockVote_pending hseen hpass (fun h => hcount (hcomplete.mp h)), rfl, rfl, rfl, rfl,
      fun o ho => ?_⟩
    rw [decide_eq_false hcount, Bool.or_false]
    exact hinputs o ho

/-- A vote that arrives after the request. -/
theorem Voting.lockVote {fLocked : Bool}
    (hv : Voting tx (env.getHash tx) nBlockHeight fLocked ix) (hpos : nBlockHeight ≠ 0)
    (hm : m.Valid (env.getHash tx) nBlockHeight) (hseen : ix.seenIds m.vote.getHash = false) :
    ∃ ix', ixStep env ix m.event = some ix' ∧
      Voting tx (env.getHash tx) nBlockHeight
        (fLocked || decide (10 ≤ (ix.votesOf (env.getHash tx)).length + 1)) ix' ∧
      ix'.votesOf (env.getHash tx) = ix.votesOf (env.getHash tx) ++ [m.vote] ∧
      ix'.seenIds = fun id => ix.seenIds id || decide (id = m.vote.getHash) := by
  obtain ⟨ix1, hstep, hlocks1, hvotes1, hreq1, hrejected1, hinputs1⟩ := hv.added hpos hm hseen
  obtain ⟨hnlocks, hnreq, hnrejected, hnlocked⟩ := noteUnknownVote_frame m.c ix1 m.vote
  obtain ⟨hheight', hvotes', hseen'⟩ := added_view m.c ix m.vote ix1 hlocks1 hvotes1
  rw [hm.txHash] at hheight' hvotes'
  rw [ixStep_vote hm.active, hstep]
  refine ⟨_, rfl, ⟨fun lock hlock => ?_, hheight'.trans hv.height, ?_, ?_, ?_, fun o ho => ?_⟩, hvotes',
    hseen'⟩
  · rw [hnlocks, hlocks1, ← hm.txHash, lookup_addVote] at hlock
    rw [← Option.some.inj hlock, addVote_txHash m.c (ix.storeVote m.vote) (hm.txHash ▸ hv.keyed),
      hm.txHash]
  · rw [hvotes']
    exact forall_mem_snoc hv.votes hm.height
  · rw [hnreq, hreq1]
    exact hv.req
  · rw [hnrejected, hrejected1]
    exact hv.rejected
  · rw [hnlocked]
    exact hinputs1 o ho

/-- Enough votes, and not all of them before the request. -/
def enoughVotes (nBefore : Nat) (after : List CConsensusVote) : Bool :=
  after ≠ [] && decide (10 ≤ nBefore + after.length)

theorem enoughVotes_cons (nBefore : Nat) (vote : CConsensusVote) (after : List CConsensusVote) :
    enoughVotes nBefore (vote :: after) =
      (decide (10 ≤ nBefore + 1) || enoughVotes (nBefore + 1) after) := by
  rw [Bool.eq_iff_iff]
  cases after with
  | nil => simp [enoughVotes]
  | cons v after =>
    simp only [enoughVotes, List.length_cons, ne_eq, reduceCtorEq, not_false_eq_true, decide_true,
      Bool.true_and, Bool.or_eq_true, decide_eq_true_eq]
    omega

/-- **Votes after the request** complete the lock as soon as there are enough of them. -/
theorem voting_run (hpos : nBlockHeight ≠ 0) (msgs : List VoteMessage) :
    ∀ {ix : InstantX} {fLocked : Bool}, Voting tx (env.getHash tx) nBlockHeight fLocked ix →
      (∀ m ∈ msgs, m.Valid (env.getHash tx) nBlockHeight) →
      ∃ ix', (msgs.map VoteMessage.event).foldlM (ixStep env) ix = some ix' ∧
        Voting tx (env.getHash tx) nBlockHeight (fLocked || enoughVotes
          (ix.votesOf (env.getHash tx)).length (newVotes ix.seenIds (msgs.map VoteMessage.vote))) ix' := by
  induction msgs with
  | nil =>
    intro ix fLocked hv _
    exact ⟨ix, rfl, by simpa [newVotes, enoughVotes] using hv⟩
  | cons m msgs ih =>
    intro ix fLocked hv hvalid
    rw [List.forall_mem_cons] at hvalid
    cases hseen : ix.seenIds m.vote.getHash with
    | true =>
      obtain ⟨ix', hrun, hv'⟩ := ih hv hvalid.2
      refine ⟨ix', ?_, ?_⟩
      · rw [List.map_cons, List.foldlM_cons, ixStep_vote hvalid.1.active, processLockVote_seen hseen]
        exact hrun
      · rw [List.map_cons, newVotes, if_pos hseen]
        exact hv'
    | false =>
      obtain ⟨ix1, hstep, hv1, hvotes1, hids1⟩ := hv.lockVote hpos hvalid.1 hseen
      obtain ⟨ix', hrun, hv'⟩ := ih hv1 hvalid.2
      refine ⟨ix', ?_, ?_⟩
      · rw [List.map_cons, List.foldlM_cons, hstep]
        exact hrun
      · rw [hvotes1, hids1, Bool.or_assoc] at hv'
        rw [List.map_cons, newVotes, hseen, if_neg Bool.false_ne_true, enoughVotes_cons]
        rw [List.length_append, List.length_singleton] at hv'
        exact hv'

/-- **The order of a request and its votes.**  The request for a transaction is accepted, and votes for it
at the height of its lock arrive before and after it.  In the end its inputs are locked exactly if at least
ten votes are new, and one of these arrives after the request.  The vote of this node is not new any more
after the request. -/
theorem lockOrder_iff {before after : List VoteMessage} (hr : RequestAccepted env c node ix tx)
    (hheight : (createNewLock env c node ix tx).1 = nBlockHeight)
    (hvalid : ∀ m ∈ before ++ after, m.Valid (env.getHash tx) nBlockHeight)
    (hlock : ix.mapTxLocks.lookup (env.getHash tx) = none)
    (hfree : ∀ o ∈ tx.prevouts, ix.mapLockedInputs.lookup o = none) :
    ∃ ix', (before.map VoteMessage.event ++ .message c node (.txlreq tx) ::
        after.map VoteMessage.event).foldlM (ixStep env) ix = some ix' ∧
      ((∀ o ∈ tx.prevouts, ix'.mapLockedInputs.lookup o = some (env.getHash tx)) ↔
        enoughVotes (newVotes ix.seenIds (before.map VoteMessage.vote)).length
          (newVotes (seenAfter (seenAfter ix.seenIds (before.map VoteMessage.vote))
            (ownVote env c tx nBlockHeight).toList) (after.map VoteMessage.vote)) = true) := by
  have hpos : nBlockHeight ≠ 0 := by
    have hlt := createNewLock_pos env ix hr.old
    omega
  have hnone : ix.votesOf (env.getHash tx) = [] := by rw [InstantX.votesOf, hlock, Option.elim_none]
  obtain ⟨ix1, hrun1, hw1, hvotes1, hids1⟩ :=
    waiting_run env before (waiting_start hlock) fun m hm => hvalid m (List.mem_append_left _ hm)
  obtain ⟨ix2, hstep2, hv2, hvotes2, hids2⟩ := hw1.request hr hheight hfree
  obtain ⟨ix', hrun, hv⟩ := voting_run hpos after hv2 fun m hm => hvalid m (List.mem_append_right _ hm)
  rw [hvotes2, hvotes1, hnone, List.nil_append, hids2, hids1, Bool.false_or] at hv
  refine ⟨ix', ?_, fun hall => ?_, fun henough o ho => ?_⟩
  · rw [List.foldlM_append, hrun1]
    simp only [Option.bind_eq_bind, Option.bind_some, List.foldlM_cons, hstep2]
    exact hrun
  · obtain ⟨o, ho⟩ := List.exists_mem_of_ne_nil _ hr.prevouts_ne_nil
    have hlocked := hall o ho
    rw [hv.inputs o ho] at hlocked
    split_ifs at hlocked with henough
    exact henough
  · rw [hv.inputs o ho, if_pos henough]

/-! ### Samples -/

def orderCtx : IxCtx := lockCtx fun h => if h = 1001 then some (fundingTx, 104) else none

def orderNode : Node :=
  { sampleNode [{ fundingIndex with nHeight := 21 }, { fundingIndex with hashBlock := 104 }] with
    nBestHeight := 21 }

def orderVotes (nVotes : Nat) : List VoteMessage :=
  (List.range nVotes).map fun i => ⟨orderCtx, orderNode, voteOf i 0 1012 5⟩

theorem orderVotes_valid (nVotes : Nat) : ∀ m ∈ orderVotes nVotes, m.Valid 1012 5 := by
  intro m hm
  obtain ⟨i, -, rfl⟩ := List.mem_map.mp hm
  exact ⟨rfl, rfl, rfl, rfl⟩

theorem orderRequest_accepted :
    RequestAccepted (sampleEnv []) orderCtx orderNode {} (lockTx ⟨1001, 0⟩) := by
  refine ⟨rfl, by decide, by decide, ?_⟩
  unfold OldInputs
  decide

def orderEvents (before after : List VoteMessage) : List IxEvent :=
  before.map VoteMessage.event ++ .message orderCtx orderNode (.txlreq (lockTx ⟨1001, 0⟩)) ::
    after.map VoteMessage.event

theorem lockOrder_iff_between : ∃ ix', (orderEvents (orderVotes 6) ((orderVotes 10).drop 6)).foldlM
      (ixStep (sampleEnv [])) {} = some ix' ∧
    ∀ o ∈ (lockTx ⟨1001, 0⟩).prevouts, ix'.mapLockedInputs.lookup o = some 1012 := by
  have hvalid : ∀ m ∈ orderVotes 6 ++ (orderVotes 10).drop 6, m.Valid 1012 5 := by
    intro m hm
    rcases List.mem_append.mp hm with hm | hm
    · exact orderVotes_valid 6 m hm
    · exact orderVotes_valid 10 m (List.mem_of_mem_drop hm)
  have hheight : (createNewLock (sampleEnv []) orderCtx orderNode {} (lockTx ⟨1001, 0⟩)).1 = 5 := by
    decide
  obtain ⟨ix', hrun, hiff⟩ := lockOrder_iff orderRequest_accepted hheight hvalid rfl fun _ _ => rfl
  exact ⟨ix', hrun, hiff.mpr (by decide)⟩

/-- **The request comes last.**  Ten masternodes have voted for the payment before its request arrives, and
its input is not locked. -/
theorem lockOrder_late : (∀ m ∈ orderVotes 10, m.Valid 1012 5) ∧
    RequestAccepted (sampleEnv []) orderCtx orderNode {} (lockTx ⟨1001, 0⟩) ∧
    ((orderEvents [] (orderVotes 10)).foldlM (ixStep (sampleEnv [])) {}).map
      (fun ix => ix.mapLockedInputs.lookup ⟨1001, 0⟩) = some (some 1012) ∧
    ((orderEvents (orderVotes 10) []).foldlM (ixStep (sampleEnv [])) {}).map
      (fun ix => ix.mapLockedInputs.lookup ⟨1001, 0⟩) = some none :=
  ⟨orderVotes_valid 10, orderRequest_accepted, by decide, by decide⟩

end Sphinx
