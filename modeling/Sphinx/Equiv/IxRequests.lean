import Sphinx.Equiv.IxVotes

/-!
# Requests and their locks

What is known of a transaction should go with its lock, and a lock that is complete should have its
request.  A rejected request breaks both: its lock may be complete, and `CleanTransactionLocksList` looks
at accepted requests only.

* `RequestInv`: a lock with a block height has its request, and is not rejected;
* `instantX_total`: then no message goes wrong;
* `TrackInv`, `locksCleaned`: if every request is accepted and has a lock, everything is cleaned up with
  the locks.
-/

namespace Sphinx

variable {env : Env} {c : IxCtx} {node node' : Node} {ix ix' : InstantX} {vote : CConsensusVote}
  {tx : CTransaction}

/-! ### The locks -/

theorem addVote_lock (c : IxCtx) (ix : InstantX) (vote : CConsensusVote) {h : Uint256}
    {lock' : CTransactionLock} (hl : (addVote c ix vote).2.mapTxLocks.lookup h = some lock') :
    lock'.nBlockHeight = 0 ∨ ∃ lock, ix.mapTxLocks.lookup h = some lock ∧
      lock'.nBlockHeight = lock.nBlockHeight := by
  by_cases hh : h = vote.txHash
  · subst hh
    rw [lookup_addVote] at hl
    obtain rfl := Option.some.inj hl
    simp only [addVote, CTransactionLock.addSignature]
    cases hlock : ix.mapTxLocks.lookup vote.txHash with
    | none => exact .inl rfl
    | some lock => exact .inr ⟨lock, rfl, rfl⟩
  · rw [addVote, AList.lookup_insert_ne hh] at hl
    exact .inr ⟨lock', hl, rfl⟩

theorem isSome_addVote (c : IxCtx) (ix : InstantX) (vote : CConsensusVote) {h : Uint256}
    (hl : (ix.mapTxLocks.lookup h).isSome = true) :
    ((addVote c ix vote).2.mapTxLocks.lookup h).isSome = true := by
  rw [addVote, MapLoop.isSome_lookup_insert, hl, Bool.true_or]

theorem nBlockHeight_ne_zero {lock : CTransactionLock}
    (h : instantXSignaturesRequired ≤ lock.countSignatures) : lock.nBlockHeight ≠ 0 := by
  intro hzero
  rw [CTransactionLock.countSignatures, if_pos hzero, instantXSignaturesRequired] at h
  omega

theorem SameLocks.isSome (hs : SameLocks ix ix') (h : Uint256) :
    (ix'.mapTxLocks.lookup h).isSome = (ix.mapTxLocks.lookup h).isSome := by
  have hmap := congrArg Option.isSome (hs.locks h)
  simpa using hmap

/-- All the inputs of the transaction are old enough for `CreateNewLock`. -/
def OldInputs (c : IxCtx) (node : Node) (tx : CTransaction) : Prop :=
  (inputAgeLoop c node tx.vin.reverse 0).isSome = true

theorem createNewLock_new (h : ¬ OldInputs c node tx) :
    createNewLock env c node ix tx = (0, ix) := by
  rw [OldInputs, Option.not_isSome_iff_eq_none] at h
  simp only [createNewLock, h]

theorem createNewLock_old (env : Env) (ix : InstantX) (h : OldInputs c node tx) :
    ∃ lock, (createNewLock env c node ix tx).2.mapTxLocks.lookup (env.getHash tx) = some lock ∧
      lock.nBlockHeight = (createNewLock env c node ix tx).1 := by
  obtain ⟨nTxAge, hage⟩ := Option.isSome_iff_exists.mp h
  simp only [createNewLock, hage]
  refine ⟨_, AList.lookup_insert _, ?_⟩
  split <;> rfl

theorem isSome_createNewLock (h : OldInputs c node tx ∨ (ix.mapTxLocks.lookup (env.getHash tx)).isSome = true) :
    ((createNewLock env c node ix tx).2.mapTxLocks.lookup (env.getHash tx)).isSome = true := by
  by_cases hold : OldInputs c node tx
  · obtain ⟨lock, hlock, -⟩ := createNewLock_old env ix hold
    rw [hlock]
    rfl
  · rw [createNewLock_new hold]
    exact h.resolve_left hold

/-! ### The functions -/

theorem insertNew_of_known (hreq : ix.mapTxLockReq.lookup vote.txHash = some tx) :
    MapLoop.insertNew tx ix.mapTxLockReq vote.txHash = ix.mapTxLockReq := by
  rw [MapLoop.insertNew, hreq]
  rfl

theorem checkForConflictingLocks_frame (env : Env) (c : IxCtx) (ix : InstantX) (tx : CTransaction) :
    (checkForConflictingLocks env c ix tx).2.mapTxLockReq = ix.mapTxLockReq ∧
    (checkForConflictingLocks env c ix tx).2.mapTxLockReqRejected = ix.mapTxLockReqRejected ∧
    (checkForConflictingLocks env c ix tx).2.mapLockedInputs = ix.mapLockedInputs := by
  have hexp := onlyExpired_checkForConflictingLocks env c ix tx
  exact ⟨hexp.mapTxLockReq, hexp.mapTxLockReqRejected, hexp.mapLockedInputs⟩

/-- What completing a lock does if its request is known and has not been rejected. -/
theorem completeLock_known (env : Env) (c : IxCtx) {lock : CTransactionLock}
    (hreq : ix.mapTxLockReq.lookup vote.txHash = some tx)
    (hrejected : ix.mapTxLockReqRejected.lookup lock.txHash = none) :
    ∃ ix', completeLock env c ix lock vote = some ix' ∧ ix'.mapTxLockReq = ix.mapTxLockReq ∧
      ix'.mapTxLockReqRejected = ix.mapTxLockReqRejected ∧
      (ix'.mapLockedInputs = ix.mapLockedInputs ∨
        ix'.mapLockedInputs = tx.prevouts.foldl (MapLoop.insertNew vote.txHash) ix.mapLockedInputs) := by
  obtain ⟨hreq1, hrejected1, hlocked1⟩ := checkForConflictingLocks_frame env c ix tx
  simp only [completeLock, hreq, Option.getD_some, insertNew_of_known hreq]
  cases (checkForConflictingLocks env c ix tx).1 with
  | true => exact ⟨_, rfl, hreq1, hrejected1, .inl hlocked1⟩
  | false =>
    simp only [hreq1, hreq, Option.isSome_some, if_true, Bool.false_eq_true, if_false, lockInputs, hlocked1,
      hrejected1, hrejected, Option.isSome_none]
    exact ⟨_, rfl, rfl, rfl, .inr rfl⟩

theorem noteUnknownVote_frame (c : IxCtx) (ix : InstantX) (vote : CConsensusVote) :
    (noteUnknownVote c ix vote).mapTxLocks = ix.mapTxLocks ∧
    (noteUnknownVote c ix vote).mapTxLockReq = ix.mapTxLockReq ∧
    (noteUnknownVote c ix vote).mapTxLockReqRejected = ix.mapTxLockReqRejected ∧
    (noteUnknownVote c ix vote).mapLockedInputs = ix.mapLockedInputs := by
  simp only [noteUnknownVote]
  split_ifs <;> exact ⟨rfl, rfl, rfl, rfl⟩

theorem doConsensusVote_frame (env : Env) (c : IxCtx) (ix : InstantX) (tx : CTransaction)
    (nBlockHeight : Int) :
    (doConsensusVote env c ix tx nBlockHeight).mapTxLocks = ix.mapTxLocks ∧
    (doConsensusVote env c ix tx nBlockHeight).mapTxLockReq = ix.mapTxLockReq ∧
    (doConsensusVote env c ix tx nBlockHeight).mapTxLockReqRejected = ix.mapTxLockReqRejected ∧
    (doConsensusVote env c ix tx nBlockHeight).mapLockedInputs = ix.mapLockedInputs := by
  simp only [doConsensusVote]
  split_ifs
  · exact ⟨rfl, rfl, rfl, rfl⟩
  · exact ⟨rfl, rfl, rfl, rfl⟩
  · exact ⟨rfl, rfl, rfl, rfl⟩
  · split
    · exact ⟨rfl, rfl, rfl, rfl⟩
    · split_ifs <;> exact ⟨rfl, rfl, rfl, rfl⟩

/-! ### Locks with a height -/

/-- A lock with a block height has its request, which has not been rejected. -/
structure RequestInv (env : Env) (ix : InstantX) : Prop where
  keyed : Keyed ix
  request : ∀ h lock, ix.mapTxLocks.lookup h = some lock → lock.nBlockHeight ≠ 0 →
    (ix.mapTxLockReq.lookup h).isSome = true ∧ ix.mapTxLockReqRejected.lookup h = none
  hash : ∀ h tx, ix.mapTxLockReq.lookup h = some tx → env.getHash tx = h

/-- A change after which there is no other request, and no other lock with a height. -/
theorem RequestInv.step (h : RequestInv env ix) (hkeyed : Keyed ix')
    (hlock : ∀ k lock', ix'.mapTxLocks.lookup k = some lock' → lock'.nBlockHeight ≠ 0 →
      ∃ lock, ix.mapTxLocks.lookup k = some lock ∧ lock.nBlockHeight ≠ 0)
    (hreq : ix'.mapTxLockReq = ix.mapTxLockReq)
    (hrejected : ix'.mapTxLockReqRejected = ix.mapTxLockReqRejected) : RequestInv env ix' := by
  refine ⟨hkeyed, fun k lock' hlookup hne => ?_, fun k tx hlookup => h.hash k tx (hreq ▸ hlookup)⟩
  obtain ⟨lock, hold, hne'⟩ := hlock k lock' hlookup hne
  rw [hreq, hrejected]
  exact h.request k lock hold hne'

theorem RequestInv.sameLocks (h : RequestInv env ix) (hs : SameLocks ix ix')
    (hreq : ix'.mapTxLockReq = ix.mapTxLockReq)
    (hrejected : ix'.mapTxLockReqRejected = ix.mapTxLockReqRejected) : RequestInv env ix' := by
  refine h.step (h.keyed.sameLocks hs) (fun k lock' hlookup hne => ?_) hreq hrejected
  obtain ⟨lock, hlock, heq⟩ := hs.lookup hlookup
  exact ⟨lock, hlock, (undated_eq heq).1 ▸ hne⟩

theorem RequestInv.addVote (h : RequestInv env ix) (c : IxCtx) (vote : CConsensusVote) :
    RequestInv env (addVote c ix vote).2 := by
  refine h.step (h.keyed.addVote c vote) (fun k lock' hlookup hne => ?_) rfl rfl
  rcases addVote_lock c ix vote hlookup with hzero | ⟨lock, hlock, heq⟩
  · exact absurd hzero hne
  · exact ⟨lock, hlock, heq ▸ hne⟩

theorem RequestInv.completes (h : RequestInv env ix) (hcomplete : Completes c (ix.storeVote vote) vote) :
    ∃ tx, ix.mapTxLockReq.lookup vote.txHash = some tx ∧ env.getHash tx = vote.txHash ∧
      ix.mapTxLockReqRejected.lookup vote.txHash = none := by
  have hstored : RequestInv env (ix.storeVote vote) := ⟨h.keyed, h.request, h.hash⟩
  have hadded := hstored.addVote c vote
  obtain ⟨hreq, hrejected⟩ := hadded.request _ _ (lookup_addVote c _ vote) (nBlockHeight_ne_zero hcomplete)
  obtain ⟨tx, htx⟩ := Option.isSome_iff_exists.mp hreq
  exact ⟨tx, htx, h.hash _ tx htx, hrejected⟩

/-- All that a vote can do, where a complete lock has its request. -/
theorem processLockVote_known (h : RequestInv env ix) (c : IxCtx) (vote : CConsensusVote) :
    ∃ ix', processLockVote env c ix vote = some ix' ∧ RequestInv env ix' ∧
      ix'.mapTxLockReq = ix.mapTxLockReq ∧ ix'.mapTxLockReqRejected = ix.mapTxLockReqRejected ∧
      (∀ k, (ix.mapTxLocks.lookup k).isSome = true → (ix'.mapTxLocks.lookup k).isSome = true) ∧
      (ix'.mapLockedInputs = ix.mapLockedInputs ∨ ∃ tx, ix.mapTxLockReq.lookup vote.txHash = some tx ∧
        ix'.mapLockedInputs = tx.prevouts.foldl (MapLoop.insertNew vote.txHash) ix.mapLockedInputs) := by
  have hstored : RequestInv env (ix.storeVote vote) := ⟨h.keyed, h.request, h.hash⟩
  have hadded := hstored.addVote c vote
  rw [processLockVote_eq]
  split_ifs with hseen
  · exact ⟨ix, rfl, h, rfl, rfl, fun _ hk => hk, .inl rfl⟩
  cases hpass : passesChecks c vote with
  | false =>
    rw [processConsensusVote_rejected hpass]
    exact ⟨ix.storeVote vote, rfl, hstored, rfl, rfl, fun _ hk => hk, .inl rfl⟩
  | true =>
    have hnote : ∀ ix1, RequestInv env ix1 → RequestInv env (noteUnknownVote c ix1 vote) := by
      intro ix1 h1
      obtain ⟨-, hreq, hrejected, -⟩ := noteUnknownVote_frame c ix1 vote
      exact h1.sameLocks (sameLocks_noteUnknownVote c ix1 vote) hreq hrejected
    rw [processConsensusVote_passed hpass]
    split_ifs with hcount
    · obtain ⟨tx, htx, -, hrejected⟩ := h.completes hcount
      have hreq : (addVote c (ix.storeVote vote) vote).2.mapTxLockReq.lookup vote.txHash = some tx := htx
      have hnone : (addVote c (ix.storeVote vote) vote).2.mapTxLockReqRejected.lookup
          (addVote c (ix.storeVote vote) vote).1.txHash = none := by
        rw [addVote_txHash c (ix.storeVote vote) (hstored.keyed _)]
        exact hrejected
      obtain ⟨ix1, hok, hreq1, hrejected1, hlocked1⟩ := completeLock_known env c hreq hnone
      have hs := sameLocks_completeLock hok
      obtain ⟨hnlocks, hnreq, hnrejected, hnlocked⟩ := noteUnknownVote_frame c ix1 vote
      rw [hok]
      refine ⟨_, rfl, hnote ix1 (hadded.sameLocks hs hreq1 hrejected1), hnreq.trans hreq1,
        hnrejected.trans hrejected1, fun k hk => ?_, ?_⟩
      · simp only [if_true, hnlocks]
        rw [hs.isSome]
        exact isSome_addVote c (ix.storeVote vote) vote hk
      · rcases hlocked1 with hsame | hnew
        · exact .inl (hnlocked.trans hsame)
        · exact .inr ⟨tx, htx, hnlocked.trans hnew⟩
    · obtain ⟨hnlocks, hnreq, hnrejected, hnlocked⟩ :=
        noteUnknownVote_frame c (addVote c (ix.storeVote vote) vote).2 vote
      refine ⟨_, rfl, hnote _ hadded, hnreq, hnrejected, fun k hk => ?_, .inl hnlocked⟩
      simp only [if_true, hnlocks]
      exact isSome_addVote c (ix.storeVote vote) vote hk

theorem keyed_clean (h : Keyed ix) (c : IxCtx) (node : Node) :
    Keyed (cleanTransactionLocksList c node ix) := by
  unfold cleanTransactionLocksList
  split_ifs
  · exact h
  · exact fun k lock hlookup => h k lock ((mapTxLocks_clean _ ix).mp hlookup).1

theorem RequestInv.clean (h : RequestInv env ix) (c : IxCtx) (node : Node) :
    RequestInv env (cleanTransactionLocksList c node ix) := by
  have hkeyed := keyed_clean h.keyed c node
  unfold cleanTransactionLocksList at hkeyed ⊢
  split_ifs at hkeyed ⊢
  · exact h
  refine ⟨hkeyed, fun k lock hlookup hne => ?_, fun k tx hlookup =>
    h.hash k tx ((mapTxLockReq_clean _ ix).mp hlookup).1⟩
  obtain ⟨hold, hlive⟩ := (mapTxLocks_clean _ ix).mp hlookup
  obtain ⟨hreq, hrejected⟩ := h.request k lock hold hne
  have hother : ∀ e ∈ ix.mapTxLocks.entries, e.2.expired c = true → e.2.txHash ≠ k := by
    intro e he hexp
    rw [h.keyed e.1 e.2 (mem_entries_iff.mp he)]
    exact hlive e he hexp
  obtain ⟨tx, htx⟩ := Option.isSome_iff_exists.mp hreq
  refine ⟨Option.isSome_iff_exists.mpr ⟨tx, (mapTxLockReq_clean _ ix).mpr ⟨htx, hother⟩⟩, ?_⟩
  rw [mapTxLockReqRejected_clean _ ix hother]
  exact hrejected

theorem RequestInv.accept (h : RequestInv env ix) (haccepts : acceptsRequest env c ix tx = true) :
    RequestInv env { doConsensusVote env c (createNewLock env c node ix tx).2 tx
        (createNewLock env c node ix tx).1 with
      mapTxLockReq := ix.mapTxLockReq.insert (env.getHash tx) tx } := by
  obtain ⟨-, -, hrejected, hlocks⟩ := createNewLock_frame env c node ix tx
  obtain ⟨hdlocks, -, hdrejected, -⟩ := doConsensusVote_frame env c (createNewLock env c node ix tx).2 tx
    (createNewLock env c node ix tx).1
  have hkeyed : Keyed (createNewLock env c node ix tx).2 := h.keyed.createNewLock
  have hnone : ix.mapTxLockReqRejected.lookup (env.getHash tx) = none := by
    by_contra hne
    exact acceptsRequest_unknown haccepts (.inr (Option.isSome_iff_ne_none.mpr hne))
  refine ⟨fun k lock hlookup => hkeyed k lock (hdlocks ▸ hlookup), fun k lock hlookup hne => ?_,
    fun k tx' hlookup => ?_⟩
  · change (doConsensusVote env c _ tx _).mapTxLocks.lookup k = some lock at hlookup
    rw [hdlocks] at hlookup
    simp only [hdrejected, hrejected]
    by_cases hk : k = env.getHash tx
    · rw [hk, AList.lookup_insert]
      exact ⟨rfl, hnone⟩
    · rw [AList.lookup_insert_ne hk]
      exact h.request k lock ((hlocks k hk).symm.trans hlookup) hne
  · by_cases hk : k = env.getHash tx
    · rw [hk, AList.lookup_insert] at hlookup
      rw [hk, Option.some.inj hlookup]
    · rw [AList.lookup_insert_ne hk] at hlookup
      exact h.hash k tx' hlookup

/-- A request that `CreateNewLock` gives no height and that is rejected. -/
theorem RequestInv.reject (h : RequestInv env ix) (haccepts : acceptsRequest env c ix tx = true) :
    ∃ ix', rejectRequest env c ix tx = some ix' ∧ RequestInv env ix' := by
  -- the lock of a request that is not known has no height
  have hzero : ∀ lock, ix.mapTxLocks.lookup (env.getHash tx) = some lock → lock.nBlockHeight = 0 := by
    intro lock hlock
    by_contra hne
    exact acceptsRequest_unknown haccepts (.inl (h.request _ lock hlock hne).1)
  refine ⟨lockInputs { ix with
      mapTxLockReqRejected := ix.mapTxLockReqRejected.insert (env.getHash tx) tx } tx (env.getHash tx), ?_,
    h.keyed, fun k lock hlookup hne => ?_, h.hash⟩
  · simp only [rejectRequest]
    split
    · rfl
    · next lock hlock =>
      have hzero : lock.nBlockHeight = 0 := hzero lock hlock
      rw [if_neg]
      exact fun hcount => nBlockHeight_ne_zero hcount hzero
  · obtain ⟨hreq, hnone⟩ := h.request k lock hlookup hne
    refine ⟨hreq, ?_⟩
    have hk : k ≠ env.getHash tx := by
      rintro rfl
      exact hne (hzero lock hlookup)
    exact (AList.lookup_insert_ne hk).trans hnone

/-! ### No message goes wrong -/

/-- A request whose inputs are old enough is accepted into the pool. -/
def RequestsAccepted (env : Env) (ix : InstantX) : IxEvent → Prop
  | .message c node (.txlreq tx) => c.active = true → acceptsRequest env c ix tx = true →
    OldInputs c node tx →
      (acceptToMemoryPool env ((createNewLock env c node ix tx).2.ctx c.ctx) node tx).isOk = true
  | _ => True

/-- The inputs that a complete lock records are those of its transaction. -/
def UsesLockedTx (env : Env) (ix : InstantX) : IxEvent → Prop
  | .message c _ (.txlvote vote) => c.active = true → ¬ ix.Seen vote.getHash →
    passesChecks c vote = true → Completes c (ix.storeVote vote) vote →
      ∃ tx, ix.mapTxLockReq.lookup vote.txHash = some tx ∧ env.getHash tx = vote.txHash
  | _ => True

theorem ixStep_total {e : IxEvent} (h : RequestInv env ix) (hsafe : RequestsAccepted env ix e) :
    ∃ ix', ixStep env ix e = some ix' ∧ RequestInv env ix' := by
  cases e with
  | message c node msg =>
    simp only [ixStep, processMessageInstantX_eq]
    split_ifs with hactive
    · cases msg with
      | txlreq tx =>
        simp only [processLockRequest]
        split_ifs with haccepts
        · exact ⟨ix, rfl, h⟩
        rw [Bool.not_eq_true, Bool.not_eq_false'] at haccepts
        cases haccept : acceptToMemoryPool env ((createNewLock env c node ix tx).2.ctx c.ctx) node tx with
        | ok node' =>
          obtain ⟨-, hreq, -⟩ := createNewLock_frame env c node ix tx
          obtain ⟨-, hdreq, -⟩ := doConsensusVote_frame env c (createNewLock env c node ix tx).2 tx
            (createNewLock env c node ix tx).1
          refine ⟨_, rfl, ?_⟩
          simp only [hdreq, hreq]
          exact h.accept haccepts
        | error err =>
          have hyoung : ¬ OldInputs c node tx := by
            intro hold
            have hok := hsafe hactive haccepts hold
            rw [haccept] at hok
            cases hok
          obtain ⟨ix', hreject, h'⟩ := h.reject haccepts
          refine ⟨ix', ?_, h'⟩
          simp [createNewLock_new hyoung, hreject]
      | txlvote vote =>
        obtain ⟨ix', hok, h', -⟩ := processLockVote_known h c vote
        exact ⟨ix', by simp [hok], h'⟩
    · exact ⟨ix, rfl, h⟩
  | clean c node => exact ⟨_, rfl, h.clean c node⟩

theorem requestInv_empty (env : Env) : RequestInv env {} := by
  refine ⟨?_, ?_, ?_⟩
  · intro h lock hlookup
    cases hlookup
  · intro h lock hlookup
    cases hlookup
  · intro h tx hlookup
    cases hlookup

/-- **No message goes wrong** in a run in which every request with inputs that are old enough is accepted
into the pool, and a complete lock records the inputs of its transaction. -/
theorem instantX_total {events : List IxEvent}
    (h : Run.EveryStep (ixStep env) (RequestsAccepted env) events {}) :
    Run.EveryStep (ixStep env) (fun ix e => (∃ ix', ixStep env ix e = some ix') ∧ UsesLockedTx env ix e)
      events {} := by
  have hkeep : ∀ {ix e ix'}, RequestInv env ix → RequestsAccepted env ix e → ixStep env ix e = some ix' →
      RequestInv env ix' := by
    intro ix e ix' hinv hsafe hstep
    obtain ⟨ix1, hstep1, h1⟩ := ixStep_total hinv hsafe
    exact Option.some.inj (hstep1.symm.trans hstep) ▸ h1
  refine Run.everyStep_of_everyStep ?_ hkeep events (requestInv_empty env) h
  intro ix e hinv hsafe
  obtain ⟨ix1, hstep1, -⟩ := ixStep_total hinv hsafe
  refine ⟨⟨ix1, hstep1⟩, ?_⟩
  cases e with
  | message c node msg =>
    cases msg with
    | txlreq tx => trivial
    | txlvote vote =>
      intro _ _ _ hcomplete
      obtain ⟨tx, htx, hhash, -⟩ := hinv.completes hcomplete
      exact ⟨tx, htx, hhash⟩
  | clean c node => trivial

theorem instantX_total_voted : Run.EveryStep (ixStep (sampleEnv []))
    (fun ix e => (∃ ix', ixStep (sampleEnv []) ix e = some ix') ∧ UsesLockedTx (sampleEnv []) ix e)
    (votedEvents 10) {} := by
  refine instantX_total ⟨fun _ _ _ => by decide, fun ix' _ => Run.everyStep_of_forall _ ?_⟩
  intro e he ix
  obtain ⟨i, -, rfl⟩ := List.mem_map.mp he
  trivial

/-- The request for a payment of which the pool already has a conflicting one, and votes for it. -/
def rejectedEvents (nVotes : Nat) : List IxEvent :=
  let index := { fundingIndex with nHeight := 21 }
  let node := { sampleNode [index, { fundingIndex with hashBlock := 104 }] with
    nBestHeight := 21
    mempool := ({} : CTxMemPool).addUnchecked 1011 ordinaryTx }
  let c := lockCtx fun h => if h = 1001 then some (fundingTx, 104) else none
  .message c node (.txlreq (lockTx ⟨1001, 0⟩)) ::
    (List.range nVotes).map fun i =>
      .message c node (.txlvote ⟨⟨⟨i, 0⟩, [], uintMax⟩, 1012, 5, []⟩)

/-- **A message that goes wrong.**  The tenth vote for a rejected request completes its lock. -/
theorem instantX_total_rejected : ¬ Run.EveryStep (ixStep (sampleEnv []))
    (fun ix e => ∃ ix', ixStep (sampleEnv []) ix e = some ix') (rejectedEvents 10) {} := by
  intro h
  obtain ⟨ix', hrun⟩ := Run.exists_end _ h
  have hnone : ((rejectedEvents 10).foldlM (ixStep (sampleEnv [])) {}).isNone = true := by decide
  rw [hrun] at hnone
  cases hnone

/-! ### Everything goes with its lock -/

/-- What is known of a transaction belongs to a lock of it. -/
def Tracked (ix : InstantX) : Prop :=
  ∀ h, ((ix.mapTxLockReq.lookup h).isSome = true ∨ (ix.mapTxLockReqRejected.lookup h).isSome = true ∨
      ∃ o, ix.mapLockedInputs.lookup o = some h) →
    ∃ lock, ix.mapTxLocks.lookup h = some lock ∧ lock.txHash = h

/-- The invariant behind `Tracked`: no request is rejected, every request has a lock, and an input is
locked for a transaction of which it is an input. -/
structure TrackInv (env : Env) (ix : InstantX) : Prop extends RequestInv env ix where
  rejected : ∀ h, ix.mapTxLockReqRejected.lookup h = none
  locked : ∀ h, (ix.mapTxLockReq.lookup h).isSome = true → (ix.mapTxLocks.lookup h).isSome = true
  input : ∀ o h, ix.mapLockedInputs.lookup o = some h →
    ∃ tx, ix.mapTxLockReq.lookup h = some tx ∧ o ∈ tx.prevouts

theorem TrackInv.tracked (h : TrackInv env ix) : Tracked ix := by
  intro k hk
  have hreq : (ix.mapTxLockReq.lookup k).isSome = true := by
    rcases hk with hreq | hrejected | ⟨o, ho⟩
    · exact hreq
    · rw [h.rejected k] at hrejected
      cases hrejected
    · obtain ⟨tx, htx, -⟩ := h.input o k ho
      exact Option.isSome_iff_exists.mpr ⟨tx, htx⟩
  obtain ⟨lock, hlock⟩ := Option.isSome_iff_exists.mp (h.locked k hreq)
  exact ⟨lock, hlock, h.keyed k lock hlock⟩

/-- No input of an expired lock is locked for another transaction, unless that lock has expired too. -/
def InputsApart (c : IxCtx) (ix : InstantX) : Prop :=
  ∀ k lock tx, ix.mapTxLocks.lookup k = some lock → lock.expired c = true →
    ix.mapTxLockReq.lookup k = some tx → ∀ o ∈ tx.prevouts, ∀ h lock',
      ix.mapLockedInputs.lookup o = some h → ix.mapTxLocks.lookup h = some lock' → lock'.expired c = true

/-- A request that is not dropped is accepted into the pool, and its inputs are old enough for a lock or votes have
made one before; the list is cleaned up only while the locks are apart. -/
def CleanupSafe (env : Env) (ix : InstantX) : IxEvent → Prop
  | .message c node (.txlreq tx) => c.active = true → acceptsRequest env c ix tx = true →
    (acceptToMemoryPool env ((createNewLock env c node ix tx).2.ctx c.ctx) node tx).isOk = true ∧
      (OldInputs c node tx ∨ (ix.mapTxLocks.lookup (env.getHash tx)).isSome = true)
  | .message _ _ (.txlvote _) => True
  | .clean c _ => InputsApart c ix

/-- A lock that is dropped leaves nothing behind, and takes no locked input of another lock along. -/
def CleansUp (c : IxCtx) (node : Node) (ix : InstantX) : Prop :=
  (∀ h lock, ix.mapTxLocks.lookup h = some lock →
    (cleanTransactionLocksList c node ix).mapTxLocks.lookup h = none →
      (cleanTransactionLocksList c node ix).mapTxLockReq.lookup h = none ∧
      (cleanTransactionLocksList c node ix).mapTxLockReqRejected.lookup h = none ∧
      ∀ o, (cleanTransactionLocksList c node ix).mapLockedInputs.lookup o ≠ some h) ∧
  ∀ o h lock, ix.mapLockedInputs.lookup o = some h →
    (cleanTransactionLocksList c node ix).mapTxLocks.lookup h = some lock →
      (cleanTransactionLocksList c node ix).mapLockedInputs.lookup o = some h

/-- If the event is a call of `CleanTransactionLocksList`, it cleans up. -/
def EventCleansUp (ix : InstantX) : IxEvent → Prop
  | .clean c node => CleansUp c node ix
  | .message _ _ _ => True

theorem TrackInv.lockVote (h : TrackInv env ix) (hok : processLockVote env c ix vote = some ix') :
    TrackInv env ix' := by
  obtain ⟨ix1, hok1, h1, hreq, hrejected, hlocks, hinputs⟩ := processLockVote_known h.toRequestInv c vote
  obtain rfl : ix1 = ix' := Option.some.inj (hok1.symm.trans hok)
  refine ⟨h1, fun k => ?_, fun k hk => ?_, fun o k ho => ?_⟩
  · rw [hrejected]
    exact h.rejected k
  · rw [hreq] at hk
    exact hlocks k (h.locked k hk)
  · rw [hreq]
    rcases hinputs with hsame | ⟨tx, htx, hnew⟩
    · rw [hsame] at ho
      exact h.input o k ho
    · rw [hnew, MapLoop.lookup_foldl_insertNew] at ho
      rcases Option.or_eq_some_iff.mp ho with hold | ⟨-, hadded⟩
      · exact h.input o k hold
      · split_ifs at hadded with hmem
        rw [← Option.some.inj hadded]
        exact ⟨tx, htx, hmem⟩

theorem TrackInv.accept (h : TrackInv env ix) (haccepts : acceptsRequest env c ix tx = true)
    (hlock : ((createNewLock env c node ix tx).2.mapTxLocks.lookup (env.getHash tx)).isSome = true) :
    TrackInv env { doConsensusVote env c (createNewLock env c node ix tx).2 tx
        (createNewLock env c node ix tx).1 with
      mapTxLockReq := ix.mapTxLockReq.insert (env.getHash tx) tx } := by
  obtain ⟨hlocked, -, hrejected, hlocks⟩ := createNewLock_frame env c node ix tx
  obtain ⟨hdlocks, -, hdrejected, hdlocked⟩ := doConsensusVote_frame env c (createNewLock env c node ix tx).2
    tx (createNewLock env c node ix tx).1
  have hunknown : (ix.mapTxLockReq.lookup (env.getHash tx)).isSome = false := by
    rw [← Bool.not_eq_true]
    exact fun hk => acceptsRequest_unknown haccepts (.inl hk)
  refine ⟨h.toRequestInv.accept haccepts, fun k => ?_, fun k hk => ?_, fun o k ho => ?_⟩
  · simp only [hdrejected, hrejected]
    exact h.rejected k
  · simp only [hdlocks]
    by_cases hkk : k = env.getHash tx
    · exact hkk ▸ hlock
    · rw [hlocks k hkk]
      rw [AList.lookup_insert_ne hkk] at hk
      exact h.locked k hk
  · simp only [hdlocked, hlocked] at ho
    obtain ⟨tx', htx', ho'⟩ := h.input o k ho
    have hkk : k ≠ env.getHash tx := by
      rintro rfl
      rw [htx'] at hunknown
      cases hunknown
    exact ⟨tx', by simpa [AList.lookup_insert_ne hkk] using htx', ho'⟩

theorem lookup_clean_none {l : List (Sigma fun _ : Uint256 => CTransactionLock)} {k : Uint256}
    (h : ix.mapTxLockReqRejected.lookup k = none) :
    (l.foldl (cleanLock c) ix).mapTxLockReqRejected.lookup k = none := by
  induction l generalizing ix with
  | nil => exact h
  | cons e l ih =>
    refine ih ?_
    simp only [cleanLock]
    split_ifs
    · split
      · exact h
      · simp only
        by_cases hk : k = e.2.txHash
        · rw [hk, AList.lookup_erase]
        · rw [AList.lookup_erase_ne hk]
          exact h
    · exact h

theorem TrackInv.clean (h : TrackInv env ix) (c : IxCtx) (node : Node) :
    TrackInv env (cleanTransactionLocksList c node ix) := by
  have h1 := h.toRequestInv.clean c node
  unfold cleanTransactionLocksList at h1 ⊢
  split_ifs at h1 ⊢
  · exact h
  refine ⟨h1, fun k => lookup_clean_none (h.rejected k), fun k hk => ?_, fun o k ho => ?_⟩
  · obtain ⟨tx, htx⟩ := Option.isSome_iff_exists.mp hk
    obtain ⟨hold, hother⟩ := (mapTxLockReq_clean _ ix).mp htx
    obtain ⟨lock, hlock⟩ :=
      Option.isSome_iff_exists.mp (h.locked k (Option.isSome_iff_exists.mpr ⟨tx, hold⟩))
    refine Option.isSome_iff_exists.mpr ⟨lock, (mapTxLocks_clean _ ix).mpr ⟨hlock, ?_⟩⟩
    rintro e he hexp rfl
    exact hother e he hexp (h.keyed e.1 e.2 (mem_entries_iff.mp he))
  · obtain ⟨hold, hfree⟩ := (mapLockedInputs_clean _ ix).mp ho
    obtain ⟨tx, htx, hmem⟩ := h.input o k hold
    refine ⟨tx, (mapTxLockReq_clean _ ix).mpr ⟨htx, fun e he hexp hk => ?_⟩, hmem⟩
    exact hfree e he hexp tx (hk ▸ htx) hmem

theorem TrackInv.cleansUp (h : TrackInv env ix) (hapart : InputsApart c ix) (node : Node) :
    CleansUp c node ix := by
  have h1 := h.clean c node
  refine ⟨fun k lock hlock hnone => ?_, fun o k lock ho hlive => ?_⟩
  · have hreq : (cleanTransactionLocksList c node ix).mapTxLockReq.lookup k = none := by
      by_contra hne
      have hlocked := h1.locked k (Option.isSome_iff_ne_none.mpr hne)
      rw [hnone] at hlocked
      cases hlocked
    refine ⟨hreq, h1.rejected k, fun o ho => ?_⟩
    obtain ⟨tx, htx, -⟩ := h1.input o k ho
    rw [hreq] at htx
    cases htx
  · unfold cleanTransactionLocksList at hlive ⊢
    split_ifs at hlive ⊢
    · exact ho
    refine (mapLockedInputs_clean _ ix).mpr ⟨ho, fun e he hexp tx htx hmem => ?_⟩
    obtain ⟨hold, hunexpired⟩ := (mapTxLocks_clean _ ix).mp hlive
    -- the lock of the input would have expired with the other one
    have hlock := mem_entries_iff.mp he
    rw [h.keyed e.1 e.2 hlock] at htx
    have hexp' := hapart e.1 e.2 tx hlock hexp htx o hmem k lock ho hold
    exact hunexpired ⟨k, lock⟩ (mem_entries_iff.mpr hold) hexp' rfl

theorem ixStep_tracked {e : IxEvent} (h : TrackInv env ix) (hsafe : CleanupSafe env ix e)
    (hok : ixStep env ix e = some ix') : TrackInv env ix' := by
  rcases ixStep_cases hok with rfl | ⟨c, node, tx, node', rfl, hactive, hrequest⟩ |
    ⟨c, node, vote, -, -, hvote⟩ | ⟨c, node, -, rfl⟩
  · exact h
  · rcases processLockRequest_cases hrequest with ⟨-, -, rfl⟩ | ⟨haccepts, -, ix1, rfl, heq⟩ |
      ⟨haccepts, herror, -⟩
    · exact h
    · obtain ⟨-, hreq, -⟩ := createNewLock_frame env c node ix tx
      obtain ⟨-, hdreq, -⟩ := doConsensusVote_frame env c (createNewLock env c node ix tx).2 tx
        (createNewLock env c node ix tx).1
      simp only [hdreq, hreq] at heq
      rw [heq]
      exact h.accept haccepts (isSome_createNewLock (hsafe hactive haccepts).2)
    · rw [(hsafe hactive haccepts).1] at herror
      cases herror
  · exact h.lockVote hvote
  · exact h.clean c node

/-- **Everything goes with its lock** in a run in which every request that is not dropped is accepted into
the pool and gets a lock, and an input of an expired lock is not locked for another one. -/
theorem locksCleaned {events : List IxEvent} (h : Run.EveryStep (ixStep env) (CleanupSafe env) events {}) :
    Run.Along (ixStep env) Tracked events {} ∧ Run.EveryStep (ixStep env) EventCleansUp events {} := by
  have hempty : TrackInv env {} := by
    refine ⟨requestInv_empty env, fun _ => rfl, fun k hk => ?_, fun o k ho => ?_⟩
    · cases hk
    · cases ho
  have hkeep : ∀ {ix e ix'}, TrackInv env ix → CleanupSafe env ix e → ixStep env ix e = some ix' →
      TrackInv env ix' := fun hinv hsafe hstep => ixStep_tracked hinv hsafe hstep
  refine ⟨Run.along_of_everyStep TrackInv.tracked hkeep events hempty h,
    Run.everyStep_of_everyStep (fun {ix e} hinv hsafe => ?_) hkeep events hempty h⟩
  cases e with
  | message c node msg => trivial
  | clean c node => exact hinv.cleansUp hsafe node

def cleanedEvents : List IxEvent :=
  let late := { lockCtx fun _ => none with nTime := 2000 }
  votedEvents 0 ++ [.clean late (sampleNode [fundingIndex])]

theorem locksCleaned_late : Run.Along (ixStep (sampleEnv [])) Tracked cleanedEvents {} ∧
    Run.EveryStep (ixStep (sampleEnv [])) EventCleansUp cleanedEvents {} := by
  have hlocks : ((votedEvents 0).foldlM (ixStep (sampleEnv [])) {}).map
      (fun ix => ix.mapTxLocks.entries.map fun e => e.2.nExpiration) = some [1300] := by decide
  refine locksCleaned ⟨fun _ _ => ⟨by decide, .inl (by unfold OldInputs; decide)⟩,
    fun ix' hix' => ⟨?_, fun _ _ => trivial⟩⟩
  have hrun : (votedEvents 0).foldlM (ixStep (sampleEnv [])) {} = some ix' := by
    simp only [votedEvents, List.range_zero, List.map_nil, List.foldlM_cons, List.foldlM_nil] at hix' ⊢
    rw [hix']
    rfl
  rw [hrun, Option.map_some, Option.some.injEq] at hlocks
  -- every lock has expired
  intro k lock tx _ _ _ o _ h lock' _ hlock'
  have hmem := List.mem_map_of_mem (f := fun e => e.2.nExpiration) (mem_entries_iff.mpr hlock')
  rw [hlocks, List.mem_singleton] at hmem
  have hexp : lock'.nExpiration = 1300 := hmem
  rw [CTransactionLock.expired, hexp]
  rfl

/-- **A request without a lock.**  Nobody knows the transaction with hash 7, so the request is rejected,
and neither it nor the input that it locks belongs to a lock. -/
theorem locksCleaned_rejected : ¬ Run.Along (ixStep (sampleEnv [])) Tracked
    [.message (lockCtx fun _ => none) (sampleNode [fundingIndex]) (.txlreq (lockTx ⟨7, 0⟩))] {} := by
  have hstep : (ixStep (sampleEnv []) {} (.message (lockCtx fun _ => none) (sampleNode [fundingIndex])
      (.txlreq (lockTx ⟨7, 0⟩)))).map
      (fun ix => ((ix.mapTxLockReqRejected.lookup 1012).isSome, ix.mapTxLocks.lookup 1012)) =
      some (true, none) := by decide
  obtain ⟨ix', hix', heq⟩ := Option.map_eq_some_iff.mp hstep
  rw [Prod.mk.injEq] at heq
  rintro ⟨-, hrest⟩
  obtain ⟨lock, hlock, -⟩ := hrest ix' hix' 1012 (.inr (.inl heq.1))
  rw [heq.2] at hlock
  cases hlock

end Sphinx
