import Sphinx.Equiv.ConnectBlock
import Sphinx.InstantX
import Sphinx.Util.Run

/-!
# Locked inputs

An outpoint should be locked only by a complete lock, one with `INSTANTX_SIGNATURES_REQUIRED` votes
(`LockSound`).  The invariant behind it (`LockInv`) says in addition that the request of the locking
transaction is still known, so that `CreateNewLock` does not change the block height of its lock.

* `completeLock_inv`, `rejectRequest_inv`, `cleanTransactionLocksList_inv`: the places where
  `mapLockedInputs` or `mapTxLocks` lose or gain something;
* `instantXRun_iff`: in a run every locked input belongs to a complete lock exactly when every step is
  `LockSafe`.

Two steps are not: a rejected request locks its inputs whether or not its lock is complete, and
`CleanTransactionLocksList` drops the lock of a rejected request and keeps its inputs locked.
-/

namespace Sphinx

variable {env : Env} {c : IxCtx} {node : Node} {ix ix' ix'' : InstantX}

namespace InstantX

variable {tx : CTransaction}

/-- The lock of the transaction with hash `h` has enough votes. -/
def Complete (ix : InstantX) (h : Uint256) : Prop :=
  ∃ lock, ix.mapTxLocks.lookup h = some lock ∧ instantXSignaturesRequired ≤ lock.countSignatures

/-- A request for the transaction with hash `h` has been received. -/
def Known (ix : InstantX) (h : Uint256) : Prop :=
  (ix.mapTxLockReq.lookup h).isSome = true ∨ (ix.mapTxLockReqRejected.lookup h).isSome = true

end InstantX

/-- An outpoint is locked only by a complete lock, so a transaction or a block is rejected for a
conflict only if a complete lock stands against it. -/
structure LockSound (env : Env) (ix : InstantX) : Prop where
  locked : ∀ o h, ix.mapLockedInputs.lookup o = some h → ix.Complete h
  pool : ∀ (ctx : Ctx) (tx : CTransaction),
    conflictsWithLock (ix.ctx ctx) (env.getHash tx) tx = true →
      ∃ o ∈ tx.prevouts, ∃ h ≠ env.getHash tx, ix.mapLockedInputs.lookup o = some h ∧ ix.Complete h
  block : ∀ (ctx : Ctx) (block : CBlock), hasLockConflict env (ix.ctx ctx) block = true →
    ∃ tx ∈ block.vtx, ∃ o ∈ tx.prevouts, ∃ h ≠ env.getHash tx,
      ix.mapLockedInputs.lookup o = some h ∧ ix.Complete h

structure LockInv (ix : InstantX) : Prop where
  key : ∀ {h lock}, ix.mapTxLocks.lookup h = some lock → lock.txHash = h
  complete : ∀ {o h}, ix.mapLockedInputs.lookup o = some h → ix.Complete h
  known : ∀ {o h}, ix.mapLockedInputs.lookup o = some h → ix.Known h

theorem lockSound_of_locked (h : ∀ o h, ix.mapLockedInputs.lookup o = some h → ix.Complete h) :
    LockSound env ix := by
  have hpool : ∀ (ctx : Ctx) (hash : Uint256) (tx : CTransaction),
      conflictsWithLock (ix.ctx ctx) hash tx = true →
      ∃ o ∈ tx.prevouts, ∃ h ≠ hash, ix.mapLockedInputs.lookup o = some h ∧ ix.Complete h := by
    intro ctx hash tx hany
    obtain ⟨o, ho, hne⟩ := List.any_eq_true.mp hany
    cases hlookup : ix.mapLockedInputs.lookup o with
    | none => simp [InstantX.ctx, hlookup] at hne
    | some k =>
      have hk : k ≠ hash := by simpa [InstantX.ctx, hlookup] using hne
      exact ⟨o, ho, k, hk, hlookup, h o k hlookup⟩
  refine ⟨h, fun ctx tx hconflict => hpool ctx _ tx hconflict, fun ctx block hblock => ?_⟩
  obtain ⟨tx, htx, hany⟩ := List.any_eq_true.mp hblock
  rw [Bool.and_eq_true] at hany
  exact ⟨tx, htx, hpool ctx _ tx hany.2⟩

theorem LockInv.sound (h : LockInv ix) : LockSound env ix :=
  lockSound_of_locked fun _ _ hlookup => h.complete hlookup

/-- A change that keeps the complete locks and the known requests of the inputs locked before. -/
theorem LockInv.step (h : LockInv ix)
    (hkey : ∀ {k lock}, ix'.mapTxLocks.lookup k = some lock → lock.txHash = k)
    (hentry : ∀ {o k}, ix'.mapLockedInputs.lookup o = some k →
      ix.mapLockedInputs.lookup o = some k ∨ (ix'.Complete k ∧ ix'.Known k))
    (hcomplete : ∀ {o k}, ix.mapLockedInputs.lookup o = some k →
      ix'.mapLockedInputs.lookup o = some k → ix.Complete k → ix'.Complete k)
    (hknown : ∀ {o k}, ix.mapLockedInputs.lookup o = some k →
      ix'.mapLockedInputs.lookup o = some k → ix.Known k → ix'.Known k) : LockInv ix' := by
  refine ⟨hkey, fun {o k} hlookup => ?_, fun {o k} hlookup => ?_⟩
  · rcases hentry hlookup with hold | hnew
    · exact hcomplete hold hlookup (h.complete hold)
    · exact hnew.1
  · rcases hentry hlookup with hold | hnew
    · exact hknown hold hlookup (h.known hold)
    · exact hnew.2

/-! ### Expiration dates -/

/-- Nothing but expiration dates has changed. -/
structure OnlyExpired (ix ix' : InstantX) : Prop where
  mapLockedInputs : ix'.mapLockedInputs = ix.mapLockedInputs
  mapTxLockReq : ix'.mapTxLockReq = ix.mapTxLockReq
  mapTxLockReqRejected : ix'.mapTxLockReqRejected = ix.mapTxLockReqRejected
  key : ∀ {k lock'}, ix'.mapTxLocks.lookup k = some lock' →
    ∃ lock, ix.mapTxLocks.lookup k = some lock ∧ lock'.txHash = lock.txHash
  complete : ∀ {k}, ix.Complete k → ix'.Complete k

theorem OnlyExpired.trans (h : OnlyExpired ix ix') (h' : OnlyExpired ix' ix'') :
    OnlyExpired ix ix'' := by
  refine ⟨h'.mapLockedInputs.trans h.mapLockedInputs, h'.mapTxLockReq.trans h.mapTxLockReq,
    h'.mapTxLockReqRejected.trans h.mapTxLockReqRejected, fun hlookup => ?_,
    fun hk => h'.complete (h.complete hk)⟩
  obtain ⟨lock', hlock', heq'⟩ := h'.key hlookup
  obtain ⟨lock, hlock, heq⟩ := h.key hlock'
  exact ⟨lock, hlock, heq'.trans heq⟩

theorem OnlyExpired.refl (ix : InstantX) : OnlyExpired ix ix :=
  ⟨rfl, rfl, rfl, fun hlookup => ⟨_, hlookup, rfl⟩, id⟩

theorem onlyExpired_expireLock (c : IxCtx) (ix : InstantX) (hash : Uint256) :
    OnlyExpired ix (expireLock c ix hash) := by
  unfold expireLock
  cases hlock : ix.mapTxLocks.lookup hash with
  | none => exact OnlyExpired.refl ix
  | some lock =>
    refine ⟨rfl, rfl, rfl, fun {k lock'} hlookup => ?_, fun {k} hk => ?_⟩
    · by_cases hk : k = hash
      · subst hk
        have heq : { lock with nExpiration := c.nTime } = lock' := by simpa using hlookup
        exact ⟨lock, hlock, heq ▸ rfl⟩
      · rw [AList.lookup_insert_ne hk] at hlookup
        exact ⟨lock', hlookup, rfl⟩
    · obtain ⟨lock', hlock', hcount⟩ := hk
      by_cases hk : k = hash
      · subst hk
        obtain rfl : lock = lock' := Option.some.inj (hlock.symm.trans hlock')
        exact ⟨_, AList.lookup_insert _, hcount⟩
      · exact ⟨lock', by simpa [AList.lookup_insert_ne hk] using hlock', hcount⟩

theorem onlyExpired_checkForConflictingLocks (env : Env) (c : IxCtx) (ix : InstantX)
    (tx : CTransaction) : OnlyExpired ix (checkForConflictingLocks env c ix tx).2 := by
  unfold checkForConflictingLocks
  simp only
  split
  · exact OnlyExpired.refl ix
  · exact (onlyExpired_expireLock c ix _).trans (onlyExpired_expireLock c _ _)

theorem LockInv.onlyExpired (h : LockInv ix) (hexp : OnlyExpired ix ix') : LockInv ix' := by
  refine h.step (fun hlookup => ?_) (fun hlookup => ?_) (fun _ _ hk => hexp.complete hk)
    fun _ _ hk => ?_
  · obtain ⟨lock, hlock, heq⟩ := hexp.key hlookup
    exact heq.trans (h.key hlock)
  · rw [hexp.mapLockedInputs] at hlookup
    exact .inl hlookup
  · unfold InstantX.Known at hk ⊢
    rw [hexp.mapTxLockReq, hexp.mapTxLockReqRejected]
    exact hk

theorem LockInv.lockInputs (h : LockInv ix) {hash : Uint256} (hcomplete : ix.Complete hash)
    (hknown : ix.Known hash) : LockInv (lockInputs ix tx hash) := by
  refine h.step h.key (fun {o k} hlookup => ?_) (fun _ _ hk => hk) fun _ _ hk => hk
  simp only [Sphinx.lockInputs, MapLoop.lookup_foldl_insertNew] at hlookup
  rcases Option.or_eq_some_iff.mp hlookup with hold | ⟨-, hnew⟩
  · exact .inl hold
  · obtain rfl : hash = k := by
      split_ifs at hnew
      exact Option.some.inj hnew
    exact .inr ⟨hcomplete, hknown⟩

/-! ### Votes -/

theorem countSignatures_addSignature (lock : CTransactionLock) (vote : CConsensusVote) :
    lock.countSignatures ≤ (lock.addSignature vote).countSignatures := by
  simp only [CTransactionLock.countSignatures, CTransactionLock.addSignature, List.countP_append]
  split
  · exact le_refl _
  · rw [Nat.cast_add]
    exact le_add_of_nonneg_right (Int.natCast_nonneg _)

theorem lookup_addVote (c : IxCtx) (ix : InstantX) (vote : CConsensusVote) :
    (addVote c ix vote).2.mapTxLocks.lookup vote.txHash = some (addVote c ix vote).1 :=
  AList.lookup_insert _

theorem LockInv.addVote (h : LockInv ix) (c : IxCtx) (vote : CConsensusVote) :
    LockInv (addVote c ix vote).2 := by
  refine h.step (fun {k lock} hlookup => ?_) (fun hlookup => .inl hlookup) (fun {o k} _ _ hk => ?_)
    fun _ _ hk => hk
  · by_cases hk : k = vote.txHash
    · subst hk
      rw [lookup_addVote] at hlookup
      obtain rfl := Option.some.inj hlookup
      -- an existing lock is stored under its own hash, a new one is made for the vote
      cases hlock : ix.mapTxLocks.lookup vote.txHash with
      | none => simp [Sphinx.addVote, CTransactionLock.addSignature, hlock]
      | some lock =>
        simp only [Sphinx.addVote, CTransactionLock.addSignature, hlock, Option.getD_some]
        exact h.key hlock
    · simp only [Sphinx.addVote, AList.lookup_insert_ne hk] at hlookup
      exact h.key hlookup
  · obtain ⟨lock, hlock, hcount⟩ := hk
    by_cases hk : k = vote.txHash
    · subst hk
      refine ⟨_, lookup_addVote c ix vote, ?_⟩
      simp only [Sphinx.addVote, hlock, Option.getD_some]
      exact hcount.trans (countSignatures_addSignature lock vote)
    · exact ⟨lock, by simpa [Sphinx.addVote, AList.lookup_insert_ne hk] using hlock, hcount⟩

theorem completeLock_inv (h : LockInv ix) {lock : CTransactionLock} {vote : CConsensusVote}
    (hcomplete : ix.Complete vote.txHash) (hok : completeLock env c ix lock vote = some ix') :
    LockInv ix' := by
  simp only [completeLock] at hok
  generalize (ix.mapTxLockReq.lookup vote.txHash).getD (nullTransaction c) = tx at hok
  -- the request is looked up with `operator[]`, so that it is known from here on
  have hreq : ∀ k, ((MapLoop.insertNew tx ix.mapTxLockReq vote.txHash).lookup k).isSome =
      ((ix.mapTxLockReq.lookup k).isSome || decide (k = vote.txHash)) := by
    intro k
    rw [MapLoop.lookup_insertNew]
    by_cases hk : k = vote.txHash <;> simp [hk]
  have h1 : LockInv { ix with mapTxLockReq := MapLoop.insertNew tx ix.mapTxLockReq vote.txHash } := by
    refine ⟨h.key, h.complete, fun hlookup => ?_⟩
    rcases h.known hlookup with hk | hk
    · exact .inl (by rw [hreq, hk, Bool.true_or])
    · exact .inr hk
  have hexp := onlyExpired_checkForConflictingLocks env c
    { ix with mapTxLockReq := MapLoop.insertNew tx ix.mapTxLockReq vote.txHash } tx
  generalize checkForConflictingLocks env c
    { ix with mapTxLockReq := MapLoop.insertNew tx ix.mapTxLockReq vote.txHash } tx = r at hok hexp
  obtain ⟨fConflict, ix1⟩ := r
  have h2 : LockInv ix1 := h1.onlyExpired hexp
  have hknown : (ix1.mapTxLockReq.lookup vote.txHash).isSome = true := by
    rw [hexp.mapTxLockReq, hreq, decide_eq_true rfl, Bool.or_true]
  simp only [hknown, if_true] at hok
  split_ifs at hok
  · obtain rfl := Option.some.inj hok
    exact h2
  · obtain rfl := Option.some.inj hok
    exact h2.lockInputs (hexp.complete hcomplete) (.inl hknown)

theorem processLockVote_inv (h : LockInv ix) {vote : CConsensusVote}
    (hok : processLockVote env c ix vote = some ix') : LockInv ix' := by
  have hnote : ∀ {ix1 : InstantX}, LockInv ix1 → LockInv (noteUnknownVote c ix1 vote) := by
    intro ix1 h1
    simp only [noteUnknownVote]
    split_ifs
    · exact h1
    · exact ⟨h1.key, h1.complete, h1.known⟩
    · exact ⟨h1.key, h1.complete, h1.known⟩
  have hstored : LockInv
      { ix with mapTxLockVote := ix.mapTxLockVote.insert vote.getHash vote } :=
    ⟨h.key, h.complete, h.known⟩
  simp only [processLockVote, processConsensusVote] at hok
  split_ifs at hok with hseen hunknown hlow hsig hcount
  · exact Option.some.inj hok ▸ h
  · exact Option.some.inj hok ▸ hstored
  · exact Option.some.inj hok ▸ hstored
  · exact Option.some.inj hok ▸ hstored
  · simp only [Option.map_eq_some_iff] at hok
    obtain ⟨_, ⟨ix1, hcompleted, rfl⟩, rfl⟩ := hok
    have hcomplete := lookup_addVote c
      { ix with mapTxLockVote := ix.mapTxLockVote.insert vote.getHash vote } vote
    exact hnote (completeLock_inv (hstored.addVote c vote) ⟨_, hcomplete, hcount⟩ hcompleted)
  · exact Option.some.inj hok ▸ hnote (hstored.addVote c vote)

/-! ### Requests -/

theorem acceptsRequest_unknown (h : acceptsRequest env c ix tx = true) :
    ¬ ix.Known (env.getHash tx) := by
  simp only [acceptsRequest, Bool.and_eq_true, Bool.not_eq_true', Bool.or_eq_false_iff] at h
  obtain ⟨⟨⟨hreq, hrejected⟩, -⟩, -⟩ := h
  rintro (hk | hk)
  · rw [hreq] at hk; cases hk
  · rw [hrejected] at hk; cases hk

/-- `CreateNewLock` touches no lock but that of the transaction. -/
theorem createNewLock_frame (env : Env) (c : IxCtx) (node : Node) (ix : InstantX) (tx : CTransaction) :
    (createNewLock env c node ix tx).2.mapLockedInputs = ix.mapLockedInputs ∧
    (createNewLock env c node ix tx).2.mapTxLockReq = ix.mapTxLockReq ∧
    (createNewLock env c node ix tx).2.mapTxLockReqRejected = ix.mapTxLockReqRejected ∧
    ∀ k, k ≠ env.getHash tx →
      (createNewLock env c node ix tx).2.mapTxLocks.lookup k = ix.mapTxLocks.lookup k := by
  unfold createNewLock
  split
  · exact ⟨rfl, rfl, rfl, fun _ _ => rfl⟩
  · exact ⟨rfl, rfl, rfl, fun _ hk => AList.lookup_insert_ne hk⟩

theorem LockInv.createNewLock (h : LockInv ix) (hnew : ¬ ix.Known (env.getHash tx)) :
    LockInv (createNewLock env c node ix tx).2 := by
  obtain ⟨hlocked, hreq, hrejected, hlocks⟩ := createNewLock_frame env c node ix tx
  refine h.step (fun {k lock} hlookup => ?_) (fun hlookup => .inl (hlocked ▸ hlookup))
    (fun {o k} hold _ hk => ?_) fun _ _ hk => ?_
  · by_cases hk : k = env.getHash tx
    · subst hk
      revert hlookup
      unfold Sphinx.createNewLock
      split
      · exact fun hlookup => h.key hlookup
      · simp only [AList.lookup_insert, Option.some.injEq]
        rintro rfl
        split
        · rfl
        · next lock hlock =>
          have hkey : lock.txHash = env.getHash tx := h.key hlock
          exact hkey
    · rw [hlocks k hk] at hlookup
      exact h.key hlookup
  · -- no input is locked by a transaction whose request is new
    have hne : k ≠ env.getHash tx := by
      rintro rfl
      exact hnew (h.known hold)
    obtain ⟨lock, hlock, hcount⟩ := hk
    exact ⟨lock, (hlocks k hne).trans hlock, hcount⟩
  · unfold InstantX.Known at hk ⊢
    rw [hreq, hrejected]
    exact hk

theorem rejectRequest_inv (h : LockInv ix)
    (hsafe : (∀ o ∈ tx.prevouts, (ix.mapLockedInputs.lookup o).isSome = true) ∨ ix.Complete (env.getHash tx))
    (hok : rejectRequest env c ix tx = some ix') : LockInv ix' := by
  simp only [rejectRequest] at hok
  have hrejected : ∀ k, ix.Known k → InstantX.Known
      { ix with mapTxLockReqRejected := ix.mapTxLockReqRejected.insert (env.getHash tx) tx } k := by
    rintro k (hk | hk)
    · exact .inl hk
    · exact .inr (by rw [MapLoop.isSome_lookup_insert, hk, Bool.true_or])
  have h1 : LockInv
      { ix with mapTxLockReqRejected := ix.mapTxLockReqRejected.insert (env.getHash tx) tx } :=
    ⟨h.key, h.complete, fun hlookup => hrejected _ (h.known hlookup)⟩
  have h2 : LockInv (lockInputs
      { ix with mapTxLockReqRejected := ix.mapTxLockReqRejected.insert (env.getHash tx) tx } tx
      (env.getHash tx)) := by
    rcases hsafe with hall | hcomplete
    · refine h1.step h1.key (fun {o k} hlookup => .inl ?_) (fun _ _ hk => hk) fun _ _ hk => hk
      simp only [lockInputs, MapLoop.lookup_foldl_insertNew] at hlookup
      rcases Option.or_eq_some_iff.mp hlookup with hold | ⟨hnone, hnew⟩
      · exact hold
      · split_ifs at hnew with ho
        have hsome := hall o ho
        rw [hnone] at hsome
        cases hsome
    · exact h1.lockInputs hcomplete (.inr (by simp))
  split at hok
  · exact Option.some.inj hok ▸ h2
  · split_ifs at hok
    · exact Option.some.inj hok ▸ h2.onlyExpired (onlyExpired_checkForConflictingLocks env c _ tx)
    · exact Option.some.inj hok ▸ h2

/-- A rejected request locks an input although its lock is not complete. -/
theorem rejectRequest_locks {o : COutPoint} (ho : o ∈ tx.prevouts)
    (hfree : ix.mapLockedInputs.lookup o = none) (hincomplete : ¬ ix.Complete (env.getHash tx)) :
    ∃ ix', rejectRequest env c ix tx = some ix' ∧
      ix'.mapLockedInputs.lookup o = some (env.getHash tx) ∧ ¬ ix'.Complete (env.getHash tx) := by
  refine ⟨lockInputs
    { ix with mapTxLockReqRejected := ix.mapTxLockReqRejected.insert (env.getHash tx) tx } tx
    (env.getHash tx), ?_, ?_, hincomplete⟩
  · simp only [rejectRequest]
    split
    · rfl
    · next lock hlock =>
      have hlt : ¬ instantXSignaturesRequired ≤ lock.countSignatures :=
        fun hle => hincomplete ⟨lock, hlock, hle⟩
      rw [if_neg hlt]
  · simp [lockInputs, MapLoop.lookup_foldl_insertNew, hfree, ho]

/-- A transaction that is not accepted into the pool locks none of its inputs, or its lock is
complete. -/
def RequestSafe (env : Env) (c : IxCtx) (node : Node) (ix : InstantX) (tx : CTransaction) : Prop :=
  acceptsRequest env c ix tx = true →
    (acceptToMemoryPool env ((createNewLock env c node ix tx).2.ctx c.ctx) node tx).isOk = false →
    (∀ o ∈ tx.prevouts, (ix.mapLockedInputs.lookup o).isSome = true) ∨
      (createNewLock env c node ix tx).2.Complete (env.getHash tx)

theorem LockInv.doConsensusVote (h : LockInv ix) (env : Env) (c : IxCtx) (tx : CTransaction)
    (nBlockHeight : Int) : LockInv (doConsensusVote env c ix tx nBlockHeight) := by
  simp only [Sphinx.doConsensusVote]
  split_ifs
  · exact h
  · exact h
  · exact h
  · split
    · exact h
    · split_ifs
      · exact h
      · exact ⟨h.key, h.complete, h.known⟩

theorem processLockRequest_inv (h : LockInv ix) {node' : Node} (hsafe : RequestSafe env c node ix tx)
    (hok : processLockRequest env c node ix tx = some (node', ix')) : LockInv ix' := by
  simp only [processLockRequest] at hok
  split_ifs at hok with haccepts
  · cases hok
    exact h
  · rw [Bool.not_eq_true, Bool.not_eq_false'] at haccepts
    have h1 : LockInv (createNewLock env c node ix tx).2 :=
      h.createNewLock (acceptsRequest_unknown haccepts)
    split at hok
    · cases hok
      have h2 := h1.doConsensusVote env c tx (createNewLock env c node ix tx).1
      refine ⟨h2.key, h2.complete, fun hlookup => ?_⟩
      rcases h2.known hlookup with hreq | hrejected
      · exact .inl (by rw [MapLoop.isSome_lookup_insert, hreq, Bool.true_or])
      · exact .inr hrejected
    · next e herror =>
      rw [Option.map_eq_some_iff] at hok
      obtain ⟨ix1, hreject, heq⟩ := hok
      obtain rfl : ix1 = ix' := (Prod.ext_iff.mp heq).2
      refine rejectRequest_inv h1 ?_ hreject
      have hlocked := (createNewLock_frame env c node ix tx).1
      rw [hlocked]
      exact hsafe haccepts (by rw [herror]; rfl)

/-! ### Cleaning up -/

section

variable (l : List (Sigma fun _ : Uint256 => CTransactionLock))

theorem mapTxLocks_clean : ∀ (ix : InstantX) {k : Uint256} {lock : CTransactionLock},
    (l.foldl (cleanLock c) ix).mapTxLocks.lookup k = some lock ↔
      ix.mapTxLocks.lookup k = some lock ∧ ∀ e ∈ l, e.2.expired c = true → e.1 ≠ k := by
  induction l with
  | nil => intro ix k lock; simp
  | cons e l ih =>
    intro ix k lock
    rw [List.foldl_cons, ih, List.forall_mem_cons]
    have hround : (cleanLock c ix e).mapTxLocks.lookup k = some lock ↔
        ix.mapTxLocks.lookup k = some lock ∧ (e.2.expired c = true → e.1 ≠ k) := by
      simp only [cleanLock]
      by_cases hexp : e.2.expired c = true
      · have hlocks : ∀ ix1 : InstantX, ix1.mapTxLocks = ix.mapTxLocks →
            ((ix1.mapTxLocks.erase e.1).lookup k = some lock ↔
              ix.mapTxLocks.lookup k = some lock ∧ (e.2.expired c = true → e.1 ≠ k)) := by
          intro ix1 hix1
          rw [hix1]
          by_cases hk : k = e.1
          · subst hk; simp [hexp]
          · simp [AList.lookup_erase_ne hk, Ne.symm hk]
        rw [if_pos hexp]
        apply hlocks
        split <;> rfl
      · simp [hexp]
    rw [hround, and_assoc]

theorem mapTxLockReq_clean : ∀ (ix : InstantX) {k : Uint256} {tx : CTransaction},
    (l.foldl (cleanLock c) ix).mapTxLockReq.lookup k = some tx ↔
      ix.mapTxLockReq.lookup k = some tx ∧ ∀ e ∈ l, e.2.expired c = true → e.2.txHash ≠ k := by
  induction l with
  | nil => intro ix k tx; simp
  | cons e l ih =>
    intro ix k tx
    rw [List.foldl_cons, ih, List.forall_mem_cons]
    have hround : (cleanLock c ix e).mapTxLockReq.lookup k = some tx ↔
        ix.mapTxLockReq.lookup k = some tx ∧ (e.2.expired c = true → e.2.txHash ≠ k) := by
      simp only [cleanLock]
      by_cases hexp : e.2.expired c = true
      · rw [if_pos hexp]
        by_cases hk : k = e.2.txHash
        · subst hk
          cases hreq : ix.mapTxLockReq.lookup e.2.txHash <;> simp [hexp, hreq]
        · cases hreq : ix.mapTxLockReq.lookup e.2.txHash <;>
            simp [AList.lookup_erase_ne hk, Ne.symm hk]
      · simp [hexp]
    rw [hround, and_assoc]

theorem mapTxLockReqRejected_clean : ∀ (ix : InstantX) {k : Uint256},
    (∀ e ∈ l, e.2.expired c = true → e.2.txHash ≠ k) →
    (l.foldl (cleanLock c) ix).mapTxLockReqRejected.lookup k = ix.mapTxLockReqRejected.lookup k := by
  induction l with
  | nil => intro ix k _; rfl
  | cons e l ih =>
    intro ix k hkept
    rw [List.forall_mem_cons] at hkept
    rw [List.foldl_cons, ih _ hkept.2]
    simp only [cleanLock]
    split_ifs with hexp
    · split
      · rfl
      · exact AList.lookup_erase_ne (hkept.1 hexp).symm
    · rfl

/-- The inputs of the requests of expired locks are freed, and no others. -/
theorem mapLockedInputs_clean : ∀ (ix : InstantX) {o : COutPoint} {k : Uint256},
    (l.foldl (cleanLock c) ix).mapLockedInputs.lookup o = some k ↔
      ix.mapLockedInputs.lookup o = some k ∧ ∀ e ∈ l, e.2.expired c = true →
        ∀ tx, ix.mapTxLockReq.lookup e.2.txHash = some tx → o ∉ tx.prevouts := by
  induction l with
  | nil => intro ix o k; simp
  | cons e l ih =>
    intro ix o k
    rw [List.foldl_cons, ih, List.forall_mem_cons]
    -- a later lock with the same request would free the same inputs
    have hreq : ∀ {h : Uint256} {tx : CTransaction},
        (cleanLock c ix e).mapTxLockReq.lookup h = some tx ↔
          ix.mapTxLockReq.lookup h = some tx ∧ (e.2.expired c = true → e.2.txHash ≠ h) := by
      intro h tx
      have hone := @mapTxLockReq_clean c [e] ix h tx
      simpa using hone
    have hround : (cleanLock c ix e).mapLockedInputs.lookup o = some k ↔
        ix.mapLockedInputs.lookup o = some k ∧ (e.2.expired c = true →
          ∀ tx, ix.mapTxLockReq.lookup e.2.txHash = some tx → o ∉ tx.prevouts) := by
      simp only [cleanLock]
      by_cases hexp : e.2.expired c = true
      · rw [if_pos hexp]
        cases hsome : ix.mapTxLockReq.lookup e.2.txHash with
        | none => simp
        | some tx => simp [MapLoop.lookup_foldl_erase, hexp, and_comm]
      · simp [hexp]
    rw [hround, and_assoc, and_congr_right_iff]
    intro _
    constructor
    · rintro ⟨hfirst, hrest⟩
      refine ⟨hfirst, fun e' he' hexp tx htx => ?_⟩
      by_cases hsame : e.2.expired c = true ∧ e.2.txHash = e'.2.txHash
      · exact hfirst hsame.1 tx (hsame.2 ▸ htx)
      · exact hrest e' he' hexp tx (hreq.mpr ⟨htx, fun he heq => hsame ⟨he, heq⟩⟩)
    · rintro ⟨hfirst, hrest⟩
      exact ⟨hfirst, fun e' he' hexp tx htx => hrest e' he' hexp tx (hreq.mp htx).1⟩

end

/-- An input locked by an expired lock is an input of a request whose lock has expired. -/
def CleanSafe (c : IxCtx) (node : Node) (ix : InstantX) : Prop :=
  node.pindexBest.isSome = true → ∀ h lock, ix.mapTxLocks.lookup h = some lock →
    lock.expired c = true → ∀ o, ix.mapLockedInputs.lookup o = some h →
      ∃ h' lock' tx, ix.mapTxLocks.lookup h' = some lock' ∧ lock'.expired c = true ∧
        ix.mapTxLockReq.lookup h' = some tx ∧ o ∈ tx.prevouts

theorem mem_entries_iff {h : Uint256} {lock : CTransactionLock} :
    (⟨h, lock⟩ : Sigma fun _ : Uint256 => CTransactionLock) ∈ ix.mapTxLocks.entries ↔
      ix.mapTxLocks.lookup h = some lock := AList.mem_lookup_iff.symm

theorem cleanTransactionLocksList_inv (h : LockInv ix) (hsafe : CleanSafe c node ix) :
    LockInv (cleanTransactionLocksList c node ix) := by
  unfold cleanTransactionLocksList
  split_ifs with hbest
  · exact h
  have hbest : node.pindexBest.isSome = true := by
    simpa [Option.isSome_iff_ne_none] using hbest
  -- the lock of an input that stays locked has not expired
  have hlive : ∀ {o k}, (ix.mapTxLocks.entries.foldl (cleanLock c) ix).mapLockedInputs.lookup o =
      some k → ∀ e ∈ ix.mapTxLocks.entries, e.2.expired c = true → e.1 ≠ k := by
    rintro o k hlookup ⟨k', lock⟩ he hexp hk
    obtain rfl : k' = k := hk
    obtain ⟨hold, hfree⟩ := (mapLockedInputs_clean _ ix).mp hlookup
    obtain ⟨h', lock', tx, hlock', hexp', htx, ho⟩ :=
      hsafe hbest k' lock (mem_entries_iff.mp he) hexp o hold
    refine hfree ⟨h', lock'⟩ (mem_entries_iff.mpr hlock') hexp' tx ?_ ho
    rw [h.key hlock']
    exact htx
  have hkeyed : ∀ {k} {e : Sigma fun _ : Uint256 => CTransactionLock}, e ∈ ix.mapTxLocks.entries →
      e.1 ≠ k → e.2.txHash ≠ k := by
    intro k e he hne
    rw [h.key (mem_entries_iff.mp he)]
    exact hne
  refine h.step (fun hlookup => h.key ((mapTxLocks_clean _ ix).mp hlookup).1)
    (fun hlookup => .inl ((mapLockedInputs_clean _ ix).mp hlookup).1) (fun _ hlookup hk => ?_)
    fun _ hlookup hk => ?_
  · obtain ⟨lock, hlock, hcount⟩ := hk
    exact ⟨lock, (mapTxLocks_clean _ ix).mpr ⟨hlock, hlive hlookup⟩, hcount⟩
  · have hkept := fun e he hexp => hkeyed he (hlive hlookup e he hexp)
    rcases hk with hreq | hrejected
    · obtain ⟨tx, htx⟩ := Option.isSome_iff_exists.mp hreq
      exact .inl (Option.isSome_iff_exists.mpr ⟨tx, (mapTxLockReq_clean _ ix).mpr ⟨htx, hkept⟩⟩)
    · exact .inr (by rw [mapTxLockReqRejected_clean _ ix hkept]; exact hrejected)

/-- A lock is dropped, and an input it locks stays locked. -/
theorem cleanTransactionLocksList_strands (h : LockInv ix) (hbad : ¬ CleanSafe c node ix) :
    ∃ o k, (cleanTransactionLocksList c node ix).mapLockedInputs.lookup o = some k ∧
      ¬ (cleanTransactionLocksList c node ix).Complete k := by
  simp only [CleanSafe, not_forall] at hbad
  obtain ⟨hbest, k, lock, hlock, hexp, o, ho, hnone⟩ := hbad
  have hnone' : node.pindexBest.isNone = false := by
    simpa [Option.isSome_iff_ne_none] using hbest
  simp only [cleanTransactionLocksList, hnone', Bool.false_eq_true, if_false]
  refine ⟨o, k, (mapLockedInputs_clean _ ix).mpr ⟨ho, ?_⟩, ?_⟩
  · rintro ⟨h', lock'⟩ he hexp' tx htx hmem
    have hlock' : ix.mapTxLocks.lookup h' = some lock' := mem_entries_iff.mp he
    refine hnone ⟨h', lock', tx, hlock', hexp', ?_, hmem⟩
    rw [← h.key hlock']
    exact htx
  · rintro ⟨lock', hlock', -⟩
    exact ((mapTxLocks_clean _ ix).mp hlock').2 ⟨k, lock⟩ (mem_entries_iff.mpr hlock) hexp rfl

/-! ### Runs -/

/-- A message arrives, or the list of locks is cleaned up.  The rest of the node may have changed in
any way since the last event. -/
inductive IxEvent where
  | message (c : IxCtx) (node : Node) (msg : IxMessage)
  | clean (c : IxCtx) (node : Node)

def ixStep (env : Env) (ix : InstantX) : IxEvent → Option InstantX
  | .message c node msg => (processMessageInstantX env c node ix msg).map Prod.snd
  | .clean c node => some (cleanTransactionLocksList c node ix)

/-- Messages are looked at. -/
def IxCtx.active (c : IxCtx) : Bool := !c.fLiteMode && c.fInstantX && c.fBlockchainSynced

/-- The condition under which a step keeps locked inputs and complete locks together. -/
def LockSafe (env : Env) (ix : InstantX) : IxEvent → Prop
  | .message c node (.txlreq tx) => c.active = true → RequestSafe env c node ix tx
  | .message _ _ (.txlvote _) => True
  | .clean c node => CleanSafe c node ix

theorem processMessageInstantX_eq (env : Env) (c : IxCtx) (node : Node) (ix : InstantX)
    (msg : IxMessage) :
    processMessageInstantX env c node ix msg =
      if c.active then
        match msg with
        | .txlreq tx => processLockRequest env c node ix tx
        | .txlvote vote => (processLockVote env c ix vote).map (node, ·)
      else some (node, ix) := by
  unfold processMessageInstantX IxCtx.active
  cases c.fLiteMode <;> cases c.fInstantX <;> cases c.fBlockchainSynced <;> rfl

/-- **All that a step can do**: nothing, or a request, or a vote, or cleaning up. -/
theorem ixStep_cases {e : IxEvent} (hok : ixStep env ix e = some ix') :
    ix' = ix ∨
    (∃ c node tx node', e = .message c node (.txlreq tx) ∧ c.active = true ∧
      processLockRequest env c node ix tx = some (node', ix')) ∨
    (∃ c node vote, e = .message c node (.txlvote vote) ∧ c.active = true ∧
      processLockVote env c ix vote = some ix') ∨
    ∃ c node, e = .clean c node ∧ ix' = cleanTransactionLocksList c node ix := by
  cases e with
  | message c node msg =>
    simp only [ixStep, processMessageInstantX_eq] at hok
    split_ifs at hok with hactive
    · cases msg with
      | txlreq tx =>
        obtain ⟨⟨node', ix1⟩, hrequest, rfl⟩ := Option.map_eq_some_iff.mp hok
        exact .inr (.inl ⟨c, node, tx, node', rfl, hactive, hrequest⟩)
      | txlvote vote =>
        simp only [Option.map_map, Option.map_eq_some_iff, Function.comp_apply] at hok
        obtain ⟨ix1, hvote, rfl⟩ := hok
        exact .inr (.inr (.inl ⟨c, node, vote, rfl, hactive, hvote⟩))
    · exact .inl (Option.some.inj hok).symm
  | clean c node => exact .inr (.inr (.inr ⟨c, node, rfl, (Option.some.inj hok).symm⟩))

theorem ixStep_inv {e : IxEvent} (h : LockInv ix) (hsafe : LockSafe env ix e)
    (hok : ixStep env ix e = some ix') : LockInv ix' := by
  rcases ixStep_cases hok with rfl | ⟨c, node, tx, node', rfl, hactive, hrequest⟩ |
    ⟨c, node, vote, rfl, -, hvote⟩ | ⟨c, node, rfl, rfl⟩
  · exact h
  · exact processLockRequest_inv h (hsafe hactive) hrequest
  · exact processLockVote_inv h hvote
  · exact cleanTransactionLocksList_inv h hsafe

theorem ixStep_unsound {e : IxEvent} (h : LockInv ix) (hbad : ¬ LockSafe env ix e) :
    ∃ ix', ixStep env ix e = some ix' ∧ ¬ LockSound env ix' := by
  cases e with
  | message c node msg =>
    cases msg with
    | txlreq tx =>
      simp only [LockSafe, RequestSafe, Classical.not_imp, not_or, not_forall] at hbad
      obtain ⟨hactive, haccepts, herror, ⟨o, ho, hfree⟩, hincomplete⟩ := hbad
      have hfree : (createNewLock env c node ix tx).2.mapLockedInputs.lookup o = none := by
        rw [(createNewLock_frame env c node ix tx).1]
        simpa using hfree
      obtain ⟨ix', hreject, hlocked, hincomplete'⟩ := rejectRequest_locks (c := c) ho hfree hincomplete
      refine ⟨ix', ?_, fun hsound => hincomplete' (hsound.locked o _ hlocked)⟩
      simp only [ixStep, processMessageInstantX_eq, hactive, if_true, processLockRequest, haccepts]
      cases hacc : acceptToMemoryPool env ((createNewLock env c node ix tx).2.ctx c.ctx) node tx with
      | ok node' => rw [hacc] at herror; cases herror
      | error e => simp [hreject]
    | txlvote vote => exact absurd trivial hbad
  | clean c node =>
    obtain ⟨o, k, hlocked, hincomplete⟩ := cleanTransactionLocksList_strands h hbad
    exact ⟨_, rfl, fun hsound => hincomplete (hsound.locked o k hlocked)⟩

theorem lockInv_empty : LockInv {} := by
  refine ⟨?_, ?_, ?_⟩
  · intro h lock hlookup
    cases hlookup
  · intro o h hlookup
    cases hlookup
  · intro o h hlookup
    cases hlookup

/-- **Locked inputs.**  From the start on, every input is locked by a complete lock all along a run
exactly when every step of it is `LockSafe`. -/
theorem instantXRun_iff (env : Env) (events : List IxEvent) :
    Run.Along (ixStep env) (LockSound env) events {} ↔
      Run.EveryStep (ixStep env) (LockSafe env) events {} :=
  Run.along_iff_everyStep LockInv.sound ixStep_inv ixStep_unsound events lockInv_empty

/-! ### Sample runs -/

/-- `OP_DUP OP_HASH160 <20 bytes> OP_EQUALVERIFY OP_CHECKSIG`. -/
def paymentScript : CScript := [0x76, 0xa9, 0x14] ++ List.replicate 20 0 ++ [0x88, 0xac]

def lockTx (prevout : COutPoint) : CTransaction :=
  { nTime := 12, vin := [⟨prevout, [], uintMax⟩], vout := [⟨4 * coin, paymentScript, -10⟩] }

def lockCtx (getTransaction : Uint256 → Option (CTransaction × Uint256)) : IxCtx where
  ctx := sampleCtx
  nTime := 100
  fLiteMode := false
  fInstantX := true
  fBlockchainSynced := true
  nMaxValue := 1000
  getTransaction := getTransaction
  getMasternodeRank _ _ := 1
  signatureValid _ := true
  fMasterNode := false
  activeVin := ⟨COutPoint.null, [], uintMax⟩
  sign _ := none

/-- **A lock without a vote.**  Nobody knows the transaction with hash 7, so the request is rejected
and there is not even a lock, but the outpoint is locked. -/
theorem instantXRun_unsound :
    ¬ Run.Along (ixStep (sampleEnv [])) (LockSound (sampleEnv []))
      [.message (lockCtx fun _ => none) (sampleNode [fundingIndex]) (.txlreq (lockTx ⟨7, 0⟩))] {} := by
  have hstep : (ixStep (sampleEnv []) {} (.message (lockCtx fun _ => none) (sampleNode [fundingIndex])
      (.txlreq (lockTx ⟨7, 0⟩)))).map
      (fun ix => (ix.mapLockedInputs.lookup ⟨7, 0⟩, ix.mapTxLocks.lookup 1012)) =
      some (some 1012, none) := by decide
  obtain ⟨ix', hix', heq⟩ := Option.map_eq_some_iff.mp hstep
  rw [Prod.mk.injEq] at heq
  rintro ⟨-, hrest⟩
  obtain ⟨lock, hlock, -⟩ := (hrest ix' hix').locked ⟨7, 0⟩ 1012 heq.1
  rw [heq.2] at hlock
  cases hlock

/-- The request for a payment that spends the first output of `fundingTx` is accepted, and then as many
masternodes vote for it. -/
def votedEvents (nVotes : Nat) : List IxEvent :=
  let index := { fundingIndex with nHeight := 21 }
  let node := { sampleNode [index, { fundingIndex with hashBlock := 104 }] with nBestHeight := 21 }
  let c := lockCtx fun h => if h = 1001 then some (fundingTx, 104) else none
  .message c node (.txlreq (lockTx ⟨1001, 0⟩)) ::
    (List.range nVotes).map fun i =>
      .message c node (.txlvote ⟨⟨⟨i, 0⟩, [], uintMax⟩, 1012, 5, []⟩)

example : ((votedEvents 10).foldlM (ixStep (sampleEnv [])) {}).map
    (fun ix => ix.mapLockedInputs.lookup ⟨1001, 0⟩) = some (some 1012) := by decide

example : ((votedEvents 9).foldlM (ixStep (sampleEnv [])) {}).map
    (fun ix => ix.mapLockedInputs.lookup ⟨1001, 0⟩) = some none := by decide

end Sphinx
