import Mathlib.Data.Nat.ModEq
import Sphinx.Equiv.InstantX

/-!
# The votes of a lock

A vote is looked at once: its id goes into `mapTxLockVote` before anything else is done with it.  So no
two votes of the locks have the same id (`VotesInv`), and the votes of a lock come from different
masternodes.

* `processLockVote_cases`, `processLockRequest_cases`: all that a message can do;
* `SameLocks`: what most of the functions leave of the locks and the seen votes;
* `cleanTransactionLocksList_votes`: the ids that an expired lock takes along belong to no other lock;
* `oneVote`: the votes of a lock, and when two votes have the same id.
-/

namespace Sphinx

variable {env : Env} {c : IxCtx} {node node' : Node} {ix ix' ix'' : InstantX} {vote : CConsensusVote}
  {tx : CTransaction} {G : CConsensusVote → Prop}

namespace InstantX

/-- The votes of the lock of a transaction. -/
def votesOf (ix : InstantX) (h : Uint256) : List CConsensusVote :=
  (ix.mapTxLocks.lookup h).elim [] CTransactionLock.vecConsensusVotes

/-- A vote with this id has been seen. -/
def Seen (ix : InstantX) (id : Uint256) : Prop := (ix.mapTxLockVote.lookup id).isSome = true

/-- The vote is noted as seen. -/
def storeVote (ix : InstantX) (vote : CConsensusVote) : InstantX :=
  { ix with mapTxLockVote := ix.mapTxLockVote.insert vote.getHash vote }

end InstantX

/-- The checks of `ProcessConsensusVote`. -/
def passesChecks (c : IxCtx) (vote : CConsensusVote) : Bool :=
  let n := c.getMasternodeRank vote.vinMasternode vote.nBlockHeight
  n ≠ -1 && n ≤ instantXSignaturesTotal && c.signatureValid vote

/-! ### What a message does -/

/-- The lock is complete with the vote. -/
def Completes (c : IxCtx) (ix : InstantX) (vote : CConsensusVote) : Prop :=
  instantXSignaturesRequired ≤ (addVote c ix vote).1.countSignatures

theorem processConsensusVote_rejected (h : passesChecks c vote = false) :
    processConsensusVote env c ix vote = some (false, ix) := by
  simp only [passesChecks, Bool.and_eq_false_iff, decide_eq_false_iff_not, not_not, Int.not_le] at h
  simp only [processConsensusVote]
  split_ifs with hunknown hlow hsig
  · rfl
  · rfl
  · rfl
  · rcases h with (h | h) | h
    · exact absurd h hunknown
    · exact absurd h hlow
    · rw [h] at hsig
      exact absurd rfl hsig
  · rcases h with (h | h) | h
    · exact absurd h hunknown
    · exact absurd h hlow
    · rw [h] at hsig
      exact absurd rfl hsig

/-- A vote that passes the checks is added, and may complete its lock. -/
theorem processConsensusVote_passed (h : passesChecks c vote = true) :
    processConsensusVote env c ix vote =
      if instantXSignaturesRequired ≤ (addVote c ix vote).1.countSignatures then
        (completeLock env c (addVote c ix vote).2 (addVote c ix vote).1 vote).map (true, ·)
      else some (true, (addVote c ix vote).2) := by
  simp only [passesChecks, Bool.and_eq_true, decide_eq_true_eq] at h
  obtain ⟨⟨hknown, hle⟩, hsig⟩ := h
  simp only [processConsensusVote, if_neg hknown, if_neg (Int.not_lt.mpr hle), hsig, Bool.not_true,
    Bool.false_eq_true, if_false]

theorem processLockVote_eq (env : Env) (c : IxCtx) (ix : InstantX) (vote : CConsensusVote) :
    processLockVote env c ix vote =
      if (ix.mapTxLockVote.lookup vote.getHash).isSome then some ix
      else (processConsensusVote env c (ix.storeVote vote) vote).map fun r =>
        if r.1 then noteUnknownVote c r.2 vote else r.2 := rfl

/-- **A vote** has been seen before, or does not pass the checks, or is added to its lock. -/
theorem processLockVote_cases (h : processLockVote env c ix vote = some ix') :
    (ix.Seen vote.getHash ∧ ix' = ix) ∨
    (¬ ix.Seen vote.getHash ∧ passesChecks c vote = false ∧ ix' = ix.storeVote vote) ∨
    (¬ ix.Seen vote.getHash ∧ passesChecks c vote = true ∧ ∃ ix1, ix' = noteUnknownVote c ix1 vote ∧
      ((Completes c (ix.storeVote vote) vote ∧ completeLock env c (addVote c (ix.storeVote vote) vote).2
          (addVote c (ix.storeVote vote) vote).1 vote = some ix1) ∨
        (¬ Completes c (ix.storeVote vote) vote ∧ ix1 = (addVote c (ix.storeVote vote) vote).2))) := by
  rw [processLockVote_eq] at h
  split_ifs at h with hseen
  · exact .inl ⟨hseen, (Option.some.inj h).symm⟩
  · refine .inr ?_
    cases hpass : passesChecks c vote with
    | false =>
      rw [processConsensusVote_rejected hpass] at h
      exact .inl ⟨hseen, rfl, (Option.some.inj h).symm⟩
    | true =>
      refine .inr ⟨hseen, rfl, ?_⟩
      rw [processConsensusVote_passed hpass] at h
      split_ifs at h with hcount
      · simp only [Option.map_map, Option.map_eq_some_iff, Function.comp_apply, if_true] at h
        obtain ⟨ix1, hcompleted, rfl⟩ := h
        exact ⟨ix1, rfl, .inl ⟨hcount, hcompleted⟩⟩
      · exact ⟨_, (Option.some.inj h).symm, .inr ⟨hcount, rfl⟩⟩

/-- **A request** is dropped, or its transaction is accepted into the pool, or it is rejected. -/
theorem processLockRequest_cases (h : processLockRequest env c node ix tx = some (node', ix')) :
    (acceptsRequest env c ix tx = false ∧ node' = node ∧ ix' = ix) ∨
    (acceptsRequest env c ix tx = true ∧
      acceptToMemoryPool env ((createNewLock env c node ix tx).2.ctx c.ctx) node tx = .ok node' ∧
      ∃ ix1, ix1 = doConsensusVote env c (createNewLock env c node ix tx).2 tx
          (createNewLock env c node ix tx).1 ∧
        ix' = { ix1 with mapTxLockReq := ix1.mapTxLockReq.insert (env.getHash tx) tx }) ∨
    (acceptsRequest env c ix tx = true ∧
      (acceptToMemoryPool env ((createNewLock env c node ix tx).2.ctx c.ctx) node tx).isOk = false ∧
      rejectRequest env c (createNewLock env c node ix tx).2 tx = some ix') := by
  simp only [processLockRequest] at h
  split_ifs at h with haccepts
  · rw [Bool.not_eq_true'] at haccepts
    cases h
    exact .inl ⟨haccepts, rfl, rfl⟩
  · rw [Bool.not_eq_true, Bool.not_eq_false'] at haccepts
    refine .inr ?_
    split at h
    · next node1 hok =>
      cases h
      exact .inl ⟨haccepts, hok, _, rfl, rfl⟩
    · next e herror =>
      obtain ⟨ix1, hreject, heq⟩ := Option.map_eq_some_iff.mp h
      cases heq
      exact .inr ⟨haccepts, by rw [herror]; rfl, hreject⟩

/-! ### Functions that leave the locks as they are -/

/-- A lock without its date of expiration. -/
def CTransactionLock.undated (lock : CTransactionLock) : CTransactionLock := { lock with nExpiration := 0 }

/-- The locks are the same up to their dates of expiration, and no vote that has been seen is
forgotten. -/
structure SameLocks (ix ix' : InstantX) : Prop where
  locks : ∀ h, (ix'.mapTxLocks.lookup h).map CTransactionLock.undated =
    (ix.mapTxLocks.lookup h).map CTransactionLock.undated
  seen : ∀ id, ix.Seen id → ix'.Seen id

theorem SameLocks.trans (h : SameLocks ix ix') (h' : SameLocks ix' ix'') : SameLocks ix ix'' :=
  ⟨fun k => (h'.locks k).trans (h.locks k), fun id hid => h'.seen id (h.seen id hid)⟩

theorem SameLocks.of_eq (hlocks : ix'.mapTxLocks = ix.mapTxLocks)
    (hvotes : ix'.mapTxLockVote = ix.mapTxLockVote) : SameLocks ix ix' :=
  ⟨fun _ => by rw [hlocks], fun id hid => by rw [InstantX.Seen, hvotes]; exact hid⟩

theorem SameLocks.lookup {h : Uint256} {lock' : CTransactionLock} (hs : SameLocks ix ix')
    (hl : ix'.mapTxLocks.lookup h = some lock') :
    ∃ lock, ix.mapTxLocks.lookup h = some lock ∧ lock'.undated = lock.undated := by
  have hmap := hs.locks h
  rw [hl] at hmap
  obtain ⟨lock, hlock, heq⟩ := Option.map_eq_some_iff.mp hmap.symm
  exact ⟨lock, hlock, heq.symm⟩

variable {lock : CTransactionLock}

theorem undated_eq {lock' : CTransactionLock} (h : lock'.undated = lock.undated) :
    lock'.nBlockHeight = lock.nBlockHeight ∧ lock'.txHash = lock.txHash ∧
      lock'.vecConsensusVotes = lock.vecConsensusVotes := by
  have hheight := congrArg CTransactionLock.nBlockHeight h
  have hhash := congrArg CTransactionLock.txHash h
  have hvotes := congrArg CTransactionLock.vecConsensusVotes h
  exact ⟨hheight, hhash, hvotes⟩

theorem SameLocks.votesOf (hs : SameLocks ix ix') (h : Uint256) : ix'.votesOf h = ix.votesOf h := by
  have hvotes : ∀ o : Option CTransactionLock, o.elim [] CTransactionLock.vecConsensusVotes =
      (o.map CTransactionLock.undated).elim [] CTransactionLock.vecConsensusVotes := by
    intro o
    cases o <;> rfl
  rw [InstantX.votesOf, InstantX.votesOf, hvotes, hs.locks, ← hvotes]

theorem sameLocks_expireLock (c : IxCtx) (ix : InstantX) (hash : Uint256) :
    SameLocks ix (expireLock c ix hash) := by
  unfold expireLock
  cases hlock : ix.mapTxLocks.lookup hash with
  | none => exact .of_eq rfl rfl
  | some lock =>
    refine ⟨fun h => ?_, fun _ hid => hid⟩
    by_cases hh : h = hash
    · subst hh
      rw [AList.lookup_insert, hlock]
      rfl
    · rw [AList.lookup_insert_ne hh]

theorem sameLocks_checkForConflictingLocks (env : Env) (c : IxCtx) (ix : InstantX) (tx : CTransaction) :
    SameLocks ix (checkForConflictingLocks env c ix tx).2 := by
  unfold checkForConflictingLocks
  simp only
  split
  · exact .of_eq rfl rfl
  · exact (sameLocks_expireLock c ix _).trans (sameLocks_expireLock c _ _)

theorem sameLocks_noteUnknownVote (c : IxCtx) (ix : InstantX) (vote : CConsensusVote) :
    SameLocks ix (noteUnknownVote c ix vote) := by
  simp only [noteUnknownVote]
  split_ifs
  · exact .of_eq rfl rfl
  · exact .of_eq rfl rfl
  · exact .of_eq rfl rfl

theorem sameLocks_doConsensusVote (env : Env) (c : IxCtx) (ix : InstantX) (tx : CTransaction)
    (nBlockHeight : Int) : SameLocks ix (doConsensusVote env c ix tx nBlockHeight) := by
  simp only [doConsensusVote]
  split_ifs
  · exact .of_eq rfl rfl
  · exact .of_eq rfl rfl
  · exact .of_eq rfl rfl
  · split
    · exact .of_eq rfl rfl
    · split_ifs
      · exact .of_eq rfl rfl
      · refine ⟨fun _ => rfl, fun id hid => ?_⟩
        rw [InstantX.Seen, MapLoop.isSome_lookup_insert, Bool.or_eq_true]
        exact .inl hid

theorem sameLocks_completeLock
    (hok : completeLock env c ix lock vote = some ix') : SameLocks ix ix' := by
  simp only [completeLock] at hok
  generalize (ix.mapTxLockReq.lookup vote.txHash).getD (nullTransaction c) = tx at hok
  have hsame := sameLocks_checkForConflictingLocks env c
    { ix with mapTxLockReq := MapLoop.insertNew tx ix.mapTxLockReq vote.txHash } tx
  generalize checkForConflictingLocks env c
    { ix with mapTxLockReq := MapLoop.insertNew tx ix.mapTxLockReq vote.txHash } tx = r at hok hsame
  obtain ⟨fConflict, ix1⟩ := r
  have hreq : SameLocks ix
      { ix with mapTxLockReq := MapLoop.insertNew tx ix.mapTxLockReq vote.txHash } := .of_eq rfl rfl
  have h1 : SameLocks ix ix1 := hreq.trans hsame
  split_ifs at hok
  · exact Option.some.inj hok ▸ h1
  · exact Option.some.inj hok ▸ h1.trans (.of_eq rfl rfl)
  · exact Option.some.inj hok ▸ h1

theorem sameLocks_rejectRequest (hok : rejectRequest env c ix tx = some ix') : SameLocks ix ix' := by
  simp only [rejectRequest] at hok
  have h1 : SameLocks ix (lockInputs
      { ix with mapTxLockReqRejected := ix.mapTxLockReqRejected.insert (env.getHash tx) tx } tx
      (env.getHash tx)) := .of_eq rfl rfl
  split at hok
  · exact Option.some.inj hok ▸ h1
  · split_ifs at hok
    · exact Option.some.inj hok ▸ h1.trans (sameLocks_checkForConflictingLocks env c _ tx)
    · exact Option.some.inj hok ▸ h1

/-! ### New locks and new votes -/

theorem createNewLock_votes (env : Env) (c : IxCtx) (node : Node) (ix : InstantX) (tx : CTransaction) :
    (∀ h, (createNewLock env c node ix tx).2.votesOf h = ix.votesOf h) ∧
      (createNewLock env c node ix tx).2.mapTxLockVote = ix.mapTxLockVote := by
  unfold createNewLock
  split
  · exact ⟨fun _ => rfl, rfl⟩
  · refine ⟨fun h => ?_, rfl⟩
    by_cases hh : h = env.getHash tx
    · subst hh
      simp only [InstantX.votesOf, AList.lookup_insert, Option.elim_some]
      split
      · next hnone => rw [hnone]; rfl
      · next lock hlock => rw [hlock]; rfl
    · rw [InstantX.votesOf, AList.lookup_insert_ne hh]
      rfl

theorem votesOf_addVote (c : IxCtx) (ix : InstantX) (vote : CConsensusVote) (h : Uint256) :
    (addVote c ix vote).2.votesOf h =
      if h = vote.txHash then ix.votesOf h ++ [vote] else ix.votesOf h := by
  split_ifs with hh
  · subst hh
    rw [InstantX.votesOf, lookup_addVote]
    simp only [addVote, CTransactionLock.addSignature, Option.elim_some, InstantX.votesOf]
    cases ix.mapTxLocks.lookup vote.txHash <;> rfl
  · rw [InstantX.votesOf, addVote, AList.lookup_insert_ne hh]
    rfl

/-- Every lock is kept under the hash of its transaction. -/
def Keyed (ix : InstantX) : Prop := ∀ h lock, ix.mapTxLocks.lookup h = some lock → lock.txHash = h

theorem Keyed.sameLocks (h : Keyed ix) (hs : SameLocks ix ix') : Keyed ix' := by
  intro k lock' hlookup
  obtain ⟨lock, hlock, heq⟩ := hs.lookup hlookup
  rw [(undated_eq heq).2.1]
  exact h k lock hlock

theorem createNewLock_txHash
    (hkeyed : ∀ lock, ix.mapTxLocks.lookup (env.getHash tx) = some lock → lock.txHash = env.getHash tx) :
    ∀ lock, (createNewLock env c node ix tx).2.mapTxLocks.lookup (env.getHash tx) = some lock →
      lock.txHash = env.getHash tx := by
  unfold createNewLock
  split
  · exact hkeyed
  · simp only [AList.lookup_insert, Option.some.injEq]
    rintro lock rfl
    split
    · rfl
    · next lock hlock => exact hkeyed lock hlock

theorem Keyed.createNewLock (h : Keyed ix) : Keyed (createNewLock env c node ix tx).2 := by
  intro k lock hlookup
  by_cases hk : k = env.getHash tx
  · subst hk
    exact createNewLock_txHash (h _) lock hlookup
  · rw [(createNewLock_frame env c node ix tx).2.2.2 k hk] at hlookup
    exact h k lock hlookup

theorem addVote_txHash (c : IxCtx) (ix : InstantX)
    (hkeyed : ∀ lock, ix.mapTxLocks.lookup vote.txHash = some lock → lock.txHash = vote.txHash) :
    (addVote c ix vote).1.txHash = vote.txHash := by
  simp only [addVote, CTransactionLock.addSignature]
  cases hlock : ix.mapTxLocks.lookup vote.txHash with
  | none => rfl
  | some lock => exact hkeyed lock hlock

theorem Keyed.addVote (h : Keyed ix) (c : IxCtx) (vote : CConsensusVote) : Keyed (addVote c ix vote).2 := by
  intro k lock hlookup
  by_cases hk : k = vote.txHash
  · subst hk
    rw [lookup_addVote] at hlookup
    exact Option.some.inj hlookup ▸ addVote_txHash c ix (h _)
  · rw [Sphinx.addVote, AList.lookup_insert_ne hk] at hlookup
    exact h k lock hlookup

/-! ### The invariant -/

/-- Every vote of a lock is a vote for its transaction and has been seen, and no two votes of the locks
have the same id.  `G` holds of the votes that pass the checks. -/
structure VotesInv (G : CConsensusVote → Prop) (ix : InstantX) : Prop where
  keyed : Keyed ix
  txHash : ∀ h v, v ∈ ix.votesOf h → v.txHash = h
  good : ∀ h v, v ∈ ix.votesOf h → G v
  seen : ∀ h v, v ∈ ix.votesOf h → ix.Seen v.getHash
  nodup : ∀ h, ((ix.votesOf h).map CConsensusVote.getHash).Nodup
  apart : ∀ h h' v v', v ∈ ix.votesOf h → v' ∈ ix.votesOf h' → v.getHash = v'.getHash → h = h'

theorem VotesInv.step (h : VotesInv G ix) (hkeyed : Keyed ix')
    (hvotes : ∀ k, ix'.votesOf k = ix.votesOf k ∨ ix'.votesOf k = [])
    (hseen : ∀ k v, v ∈ ix'.votesOf k → ix'.Seen v.getHash) : VotesInv G ix' := by
  have hsub : ∀ {k v}, v ∈ ix'.votesOf k → v ∈ ix.votesOf k := by
    intro k v hv
    rcases hvotes k with heq | hnil
    · rwa [heq] at hv
    · rw [hnil] at hv
      cases hv
  refine ⟨hkeyed, fun k v hv => h.txHash k v (hsub hv), fun k v hv => h.good k v (hsub hv), hseen,
    fun k => ?_, fun k k' v v' hv hv' heq => h.apart k k' v v' (hsub hv) (hsub hv') heq⟩
  rcases hvotes k with heq | hnil
  · rw [heq]
    exact h.nodup k
  · rw [hnil]
    exact List.nodup_nil

theorem VotesInv.sameLocks (h : VotesInv G ix) (hs : SameLocks ix ix') : VotesInv G ix' := by
  refine h.step (h.keyed.sameLocks hs) (fun k => .inl (hs.votesOf k)) fun k v hv => ?_
  rw [hs.votesOf] at hv
  exact hs.seen _ (h.seen k v hv)

theorem VotesInv.createNewLock (h : VotesInv G ix) :
    VotesInv G (createNewLock env c node ix tx).2 := by
  obtain ⟨hvotes, hseen⟩ := createNewLock_votes env c node ix tx
  refine h.step h.keyed.createNewLock (fun k => .inl (hvotes k)) fun k v hv => ?_
  rw [hvotes] at hv
  rw [InstantX.Seen, hseen]
  exact h.seen k v hv

theorem seen_storeVote {id : Uint256} :
    (ix.storeVote vote).Seen id ↔ ix.Seen id ∨ id = vote.getHash := by
  unfold InstantX.Seen InstantX.storeVote
  rw [MapLoop.isSome_lookup_insert, Bool.or_eq_true, decide_eq_true_eq]

theorem VotesInv.storeVote (h : VotesInv G ix) (vote : CConsensusVote) : VotesInv G (ix.storeVote vote) :=
  h.step h.keyed (fun _ => .inl rfl) fun k v hv => seen_storeVote.mpr (.inl (h.seen k v hv))

/-- A vote that has not been seen. -/
theorem VotesInv.addVote (h : VotesInv G ix) (c : IxCtx) (hnew : ¬ ix.Seen vote.getHash) (hgood : G vote) :
    VotesInv G (addVote c (ix.storeVote vote) vote).2 := by
  have hvotes : ∀ k, (Sphinx.addVote c (ix.storeVote vote) vote).2.votesOf k =
      if k = vote.txHash then ix.votesOf k ++ [vote] else ix.votesOf k :=
    votesOf_addVote c (ix.storeVote vote) vote
  have hmem : ∀ k v, v ∈ (Sphinx.addVote c (ix.storeVote vote) vote).2.votesOf k ↔
      v ∈ ix.votesOf k ∨ (v = vote ∧ k = vote.txHash) := by
    intro k v
    rw [hvotes]
    split_ifs with hk <;> simp [hk]
  -- the id is not the id of a vote of a lock
  have hfresh : ∀ k v, v ∈ ix.votesOf k → v.getHash ≠ vote.getHash :=
    fun k v hv heq => hnew (heq ▸ h.seen k v hv)
  have hkeyed : Keyed (ix.storeVote vote) := h.keyed
  refine ⟨hkeyed.addVote c vote, fun k v hv => ?_, fun k v hv => ?_,
    fun k v hv => ?_, fun k => ?_, fun k k' v v' hv hv' heq => ?_⟩
  · rcases (hmem k v).mp hv with hv | ⟨rfl, hk⟩
    · exact h.txHash k v hv
    · exact hk.symm
  · rcases (hmem k v).mp hv with hv | ⟨rfl, -⟩
    · exact h.good k v hv
    · exact hgood
  · rcases (hmem k v).mp hv with hv | ⟨rfl, -⟩
    · exact seen_storeVote.mpr (.inl (h.seen k v hv))
    · exact seen_storeVote.mpr (.inr rfl)
  · rw [hvotes]
    split_ifs
    · rw [List.map_append, List.map_singleton, List.nodup_append]
      refine ⟨h.nodup k, List.nodup_singleton _, fun id hid id' hid' => ?_⟩
      obtain ⟨v, hv, rfl⟩ := List.mem_map.mp hid
      rw [List.mem_singleton.mp hid']
      exact hfresh k v hv
    · exact h.nodup k
  · rcases (hmem k v).mp hv with hold | ⟨hv, hk⟩
    · rcases (hmem k' v').mp hv' with hold' | ⟨hv', -⟩
      · exact h.apart k k' v v' hold hold' heq
      · exact absurd (hv' ▸ heq) (hfresh k v hold)
    · rcases (hmem k' v').mp hv' with hold' | ⟨-, hk'⟩
      · exact absurd (hv ▸ heq.symm) (hfresh k' v' hold')
      · rw [hk, hk']

/-- What a vote preserves. -/
theorem processLockVote_votes (h : VotesInv G ix) (hgood : passesChecks c vote = true → G vote)
    (hok : processLockVote env c ix vote = some ix') : VotesInv G ix' := by
  rcases processLockVote_cases hok with ⟨-, rfl⟩ | ⟨-, -, rfl⟩ | ⟨hnew, hpass, ix1, rfl, hcomplete⟩
  · exact h
  · exact h.storeVote vote
  · have hadded := h.addVote c hnew (hgood hpass)
    have h1 : VotesInv G ix1 := by
      rcases hcomplete with ⟨-, hcompleted⟩ | ⟨-, rfl⟩
      · exact hadded.sameLocks (sameLocks_completeLock hcompleted)
      · exact hadded
    exact h1.sameLocks (sameLocks_noteUnknownVote c ix1 vote)

/-- What a request preserves. -/
theorem processLockRequest_votes (h : VotesInv G ix)
    (hok : processLockRequest env c node ix tx = some (node', ix')) : VotesInv G ix' := by
  rcases processLockRequest_cases hok with ⟨-, -, rfl⟩ | ⟨-, -, ix1, rfl, rfl⟩ | ⟨-, -, hreject⟩
  · exact h
  · exact (h.createNewLock.sameLocks (sameLocks_doConsensusVote env c _ tx _)).sameLocks (.of_eq rfl rfl)
  · exact h.createNewLock.sameLocks (sameLocks_rejectRequest hreject)

/-! ### Cleaning up -/

theorem seen_clean {id : Uint256} (l : List (Sigma fun _ : Uint256 => CTransactionLock)) :
    ∀ {ix : InstantX}, (∀ e ∈ l, e.2.expired c = true → ∀ v ∈ e.2.vecConsensusVotes, v.getHash ≠ id) →
      ix.Seen id → (l.foldl (cleanLock c) ix).Seen id := by
  induction l with
  | nil => exact fun _ hid => hid
  | cons e l ih =>
    intro ix hother hid
    rw [List.forall_mem_cons] at hother
    refine ih hother.2 ?_
    simp only [cleanLock]
    split_ifs with hexp
    · split
      · exact hid
      · unfold InstantX.Seen
        rw [MapLoop.lookup_foldl_erase, if_neg]
        · exact hid
        · intro hmem
          obtain ⟨v, hv, heq⟩ := List.mem_map.mp hmem
          exact hother.1 hexp v hv heq
    · exact hid

theorem cleanTransactionLocksList_votes (h : VotesInv G ix) :
    VotesInv G (cleanTransactionLocksList c node ix) := by
  unfold cleanTransactionLocksList
  split_ifs
  · exact h
  have hlocks := fun {k lock} => @mapTxLocks_clean c ix.mapTxLocks.entries ix k lock
  have hkept : ∀ {k v}, v ∈ (ix.mapTxLocks.entries.foldl (cleanLock c) ix).votesOf k →
      v ∈ ix.votesOf k ∧ ∀ e ∈ ix.mapTxLocks.entries, e.2.expired c = true → e.1 ≠ k := by
    intro k v hv
    unfold InstantX.votesOf at hv ⊢
    cases hlookup : (ix.mapTxLocks.entries.foldl (cleanLock c) ix).mapTxLocks.lookup k with
    | none =>
      rw [hlookup] at hv
      cases hv
    | some lock =>
      obtain ⟨hold, hlive⟩ := hlocks.mp hlookup
      rw [hlookup] at hv
      rw [hold]
      exact ⟨hv, hlive⟩
  refine h.step (fun k lock hlookup => h.keyed k lock (hlocks.mp hlookup).1) (fun k => ?_)
    fun k v hv => ?_
  · unfold InstantX.votesOf
    cases hlookup : (ix.mapTxLocks.entries.foldl (cleanLock c) ix).mapTxLocks.lookup k with
    | none => exact .inr rfl
    | some lock => exact .inl (by rw [(hlocks.mp hlookup).1])
  · obtain ⟨hold, hlive⟩ := hkept hv
    refine seen_clean _ (fun e he hexp v' hv' heq => ?_) (h.seen k v hold)
    -- the vote would be in two locks
    have hv'' : v' ∈ ix.votesOf e.1 := by
      rw [InstantX.votesOf, mem_entries_iff.mp he]
      exact hv'
    exact hlive e he hexp (h.apart e.1 k v' v hv'' hold heq)

/-! ### Runs -/

/-- `G` holds of every vote that passes the checks where it arrives. -/
def VotesGood (G : CConsensusVote → Prop) (events : List IxEvent) : Prop :=
  ∀ c node vote, .message c node (.txlvote vote) ∈ events → passesChecks c vote = true → G vote

/-- What one event preserves. -/
theorem ixStep_votes {e : IxEvent} (h : VotesInv G ix)
    (hgood : ∀ c node vote, e = .message c node (.txlvote vote) → passesChecks c vote = true → G vote)
    (hok : ixStep env ix e = some ix') : VotesInv G ix' := by
  rcases ixStep_cases hok with rfl | ⟨c, node, tx, node', -, -, hrequest⟩ | ⟨c, node, vote, rfl, -, hvote⟩ |
    ⟨c, node, -, rfl⟩
  · exact h
  · exact processLockRequest_votes h hrequest
  · exact processLockVote_votes h (hgood c node vote rfl) hvote
  · exact cleanTransactionLocksList_votes h

theorem votesInv_empty (G : CConsensusVote → Prop) : VotesInv G {} := by
  refine ⟨?_, ?_, ?_, ?_, fun _ => List.nodup_nil, ?_⟩
  · intro h lock hlookup
    cases hlookup
  · intro h v hv
    cases hv
  · intro h v hv
    cases hv
  · intro h v hv
    cases hv
  · intro h h' v v' hv
    cases hv

/-- What a run preserves. -/
theorem ixRun_votes (events : List IxEvent) {ix ix' : InstantX} (h : VotesInv G ix)
    (hgood : VotesGood G events) (hrun : events.foldlM (ixStep env) ix = some ix') : VotesInv G ix' := by
  refine Run.inv_of_foldlM events (fun {ix e ix'} hmem h hstep => ?_) h hrun
  exact ixStep_votes h (fun c node vote he => hgood c node vote (he ▸ hmem)) hstep

theorem getHash_congr {v v' : CConsensusVote} (ho : v.vinMasternode.prevout = v'.vinMasternode.prevout)
    (hh : v.txHash = v'.txHash) : v.getHash = v'.getHash := by
  rw [CConsensusVote.getHash, CConsensusVote.getHash, ho, hh]

theorem VotesInv.outpoints (h : VotesInv G ix) (k : Uint256) :
    ((ix.votesOf k).map fun v => v.vinMasternode.prevout).Nodup := by
  have hids := List.pairwise_map.mp (h.nodup k)
  refine List.pairwise_map.mpr (hids.imp_of_mem fun {v v'} hv hv' hne heq => hne ?_)
  exact getHash_congr heq ((h.txHash k v hv).trans (h.txHash k v' hv').symm)

/-! ### One masternode, one vote -/

/-- The votes that `CountSignatures` counts. -/
def CTransactionLock.countedVotes (lock : CTransactionLock) : List CConsensusVote :=
  lock.vecConsensusVotes.filter fun v => v.nBlockHeight = lock.nBlockHeight

theorem countSignatures_eq (h : lock.nBlockHeight ≠ 0) :
    lock.countSignatures = lock.countedVotes.length := by
  rw [CTransactionLock.countSignatures, if_neg h, List.countP_eq_length_filter]
  rfl

theorem countedVotes_outpoints (h : VotesInv G ix) {k : Uint256}
    (hlock : ix.mapTxLocks.lookup k = some lock) :
    (lock.countedVotes.map fun v => v.vinMasternode.prevout).Nodup := by
  have hall := h.outpoints k
  rw [InstantX.votesOf, hlock] at hall
  exact hall.sublist (List.filter_sublist.map _)

/-- The fields of the id are numbers of 256, 32 and 256 bits. -/
structure CConsensusVote.InRange (vote : CConsensusVote) : Prop where
  hash : vote.vinMasternode.prevout.hash < 2 ^ 256
  n : vote.vinMasternode.prevout.n < 2 ^ 32
  txHash : vote.txHash < 2 ^ 256

/-- The votes differ in one part of the id only. -/
def DifferInOne (v v' : CConsensusVote) : Prop :=
  (v.vinMasternode.prevout.hash ≠ v'.vinMasternode.prevout.hash ∧
    v.vinMasternode.prevout.n = v'.vinMasternode.prevout.n ∧ v.txHash = v'.txHash) ∨
  (v.vinMasternode.prevout.hash = v'.vinMasternode.prevout.hash ∧
    v.vinMasternode.prevout.n ≠ v'.vinMasternode.prevout.n ∧ v.txHash = v'.txHash) ∨
  (v.vinMasternode.prevout = v'.vinMasternode.prevout ∧ v.txHash ≠ v'.txHash)

theorem add_right_modEq {a b c m : Nat} (ha : a < m) (hb : b < m) (h : (a + c) % m = (b + c) % m) :
    a = b := by
  have hmod : a ≡ b [MOD m] := Nat.ModEq.add_right_cancel' c h
  rw [Nat.ModEq, Nat.mod_eq_of_lt ha, Nat.mod_eq_of_lt hb] at hmod
  exact hmod

theorem getHash_ne {v v' : CConsensusVote} (hv : v.InRange) (hv' : v'.InRange) (hone : DifferInOne v v') :
    v.getHash ≠ v'.getHash := by
  intro heq
  simp only [CConsensusVote.getHash] at heq
  rcases hone with ⟨hne, hn, ht⟩ | ⟨hh, hne, ht⟩ | ⟨ho, hne⟩
  · rw [hn, ht, Nat.add_assoc, Nat.add_assoc] at heq
    exact hne (add_right_modEq hv.hash hv'.hash heq)
  · rw [hh, ht, Nat.add_right_comm, Nat.add_right_comm _ v'.vinMasternode.prevout.n, Nat.add_comm,
      Nat.add_comm _ v'.vinMasternode.prevout.n] at heq
    refine hne (add_right_modEq (hv.n.trans ?_) (hv'.n.trans ?_) heq)
    · exact Nat.pow_lt_pow_right (by decide) (by decide)
    · exact Nat.pow_lt_pow_right (by decide) (by decide)
  · rw [ho, Nat.add_comm, Nat.add_comm _ v'.txHash] at heq
    exact hne (add_right_modEq hv.txHash hv'.txHash heq)

/-- **One masternode, one vote.**  After any run the votes that a lock counts come from different
outpoints.  Two votes have the same id exactly if the sums of their outpoint hash, their outpoint index and
their transaction hash agree modulo `2 ^ 256`, and votes that differ in one of the three have different
ids. -/
theorem oneVote {events : List IxEvent} (hrun : events.foldlM (ixStep env) {} = some ix) :
    (∀ h lock, ix.mapTxLocks.lookup h = some lock → lock.nBlockHeight ≠ 0 →
      lock.countSignatures = lock.countedVotes.length ∧
        (lock.countedVotes.map fun v => v.vinMasternode.prevout).Nodup) ∧
    (∀ v v' : CConsensusVote, v.getHash = v'.getHash ↔
      v.vinMasternode.prevout.hash + v.vinMasternode.prevout.n + v.txHash ≡
        v'.vinMasternode.prevout.hash + v'.vinMasternode.prevout.n + v'.txHash [MOD 2 ^ 256]) ∧
    ∀ v v' : CConsensusVote, v.InRange → v'.InRange → DifferInOne v v' → v.getHash ≠ v'.getHash := by
  have hinv := ixRun_votes (G := fun _ => True) events (votesInv_empty _) (fun _ _ _ _ _ => trivial) hrun
  exact ⟨fun h lock hlock hne => ⟨countSignatures_eq hne, countedVotes_outpoints hinv hlock⟩,
    fun _ _ => Iff.rfl, fun _ _ hv hv' hone => getHash_ne hv hv' hone⟩

def voteOf (i n : Nat) (txHash : Uint256) (nBlockHeight : Int) (vchSig : List UInt8 := []) : CConsensusVote :=
  ⟨⟨⟨i, n⟩, [], uintMax⟩, txHash, nBlockHeight, vchSig⟩

theorem oneVote_two : ∃ ix, (votedEvents 2).foldlM (ixStep (sampleEnv [])) {} = some ix ∧
    ∀ lock, ix.mapTxLocks.lookup 1012 = some lock → lock.nBlockHeight ≠ 0 →
      lock.countSignatures = lock.countedVotes.length := by
  cases hrun : (votedEvents 2).foldlM (ixStep (sampleEnv [])) {} with
  | none =>
    have hsome : ((votedEvents 2).foldlM (ixStep (sampleEnv [])) {}).isSome = true := by decide
    rw [hrun] at hsome
    cases hsome
  | some ix => exact ⟨ix, rfl, fun lock hlock hne => ((oneVote hrun).1 1012 lock hlock hne).1⟩

def voteEvents (c : IxCtx) (votes : List CConsensusVote) : List IxEvent :=
  votes.map fun vote => .message c (sampleNode []) (.txlvote vote)

/-- **Two votes with one id.**  A vote for the transaction with hash 2000 has the id of a vote of another
masternode for the transaction with hash 2001, and keeps it out. -/
theorem oneVote_collision :
    (voteOf 7 1 2000 5).vinMasternode.prevout ≠ (voteOf 7 0 2001 5).vinMasternode.prevout ∧
    (voteOf 7 1 2000 5).getHash = (voteOf 7 0 2001 5).getHash ∧
    ((voteEvents (lockCtx fun _ => none) [voteOf 7 0 2001 5]).foldlM (ixStep (sampleEnv [])) {}).map
      (fun ix => ix.votesOf 2001) = some [voteOf 7 0 2001 5] ∧
    ((voteEvents (lockCtx fun _ => none) [voteOf 7 1 2000 5, voteOf 7 0 2001 5]).foldlM
      (ixStep (sampleEnv [])) {}).map (fun ix => ix.votesOf 2001) = some [] := by
  refine ⟨by decide, by decide, by decide, by decide⟩

end Sphinx
