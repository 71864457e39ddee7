import Sphinx.Equiv.IxVotes

/-!
# Votes that do not pass the checks

`ProcessMessageInstantX` puts a vote into `mapTxLockVote` before it checks it, under an id that does not
depend on the signature.  So a forged vote keeps out the vote of the masternode it names.  The winners of
masternode payments are noted after their signature has been checked.

Two runs are compared, one with the forged votes and one without them (`Alike`): all the maps but
`mapTxLockVote` are the same as long as no forged vote stands in the way of a vote that passes the checks.
-/

namespace Sphinx

variable {env : Env} {c : IxCtx} {node : Node} {ix ix' : InstantX} {vote : CConsensusVote}
  {tx : CTransaction} {m m' : StdMap Uint256 CConsensusVote} {forged : CConsensusVote → Bool}

namespace InstantX

/-- The maps with other seen votes. -/
def withVotes (ix : InstantX) (m : StdMap Uint256 CConsensusVote) : InstantX :=
  { ix with mapTxLockVote := m }

/-- The maps without the seen votes. -/
def forgetVotes (ix : InstantX) : InstantX := ix.withVotes ∅

end InstantX

/-! ### Functions that do not look at the seen votes -/

theorem expireLock_withVotes (c : IxCtx) (ix : InstantX) (m : StdMap Uint256 CConsensusVote)
    (hash : Uint256) : expireLock c (ix.withVotes m) hash = (expireLock c ix hash).withVotes m := by
  simp only [expireLock, InstantX.withVotes]
  split <;> rfl

section

variable (env : Env) (c : IxCtx)

theorem checkForConflictingLocks_withVotes (ix : InstantX)
    (m : StdMap Uint256 CConsensusVote) (tx : CTransaction) :
    checkForConflictingLocks env c (ix.withVotes m) tx =
      ((checkForConflictingLocks env c ix tx).1, (checkForConflictingLocks env c ix tx).2.withVotes m) := by
  have hlocked : (ix.withVotes m).mapLockedInputs = ix.mapLockedInputs := rfl
  simp only [checkForConflictingLocks, hlocked, expireLock_withVotes]
  split <;> rfl

theorem createNewLock_withVotes (node : Node) (ix : InstantX)
    (m : StdMap Uint256 CConsensusVote) (tx : CTransaction) :
    createNewLock env c node (ix.withVotes m) tx =
      ((createNewLock env c node ix tx).1, (createNewLock env c node ix tx).2.withVotes m) := by
  simp only [createNewLock]
  split <;> rfl

section

variable (ix : InstantX) (m : StdMap Uint256 CConsensusVote)

theorem rejectRequest_withVotes (tx : CTransaction) :
    rejectRequest env c (ix.withVotes m) tx = (rejectRequest env c ix tx).map (·.withVotes m) := by
  have hlock : ∀ ix : InstantX, lockInputs (ix.withVotes m) tx (env.getHash tx) =
      (lockInputs ix tx (env.getHash tx)).withVotes m := fun _ => rfl
  have hinsert : { ix.withVotes m with
        mapTxLockReqRejected := (ix.withVotes m).mapTxLockReqRejected.insert (env.getHash tx) tx } =
      InstantX.withVotes { ix with
        mapTxLockReqRejected := ix.mapTxLockReqRejected.insert (env.getHash tx) tx } m := rfl
  simp only [rejectRequest, hinsert, hlock, checkForConflictingLocks_withVotes]
  have hlocks : ∀ ix : InstantX, (ix.withVotes m).mapTxLocks = ix.mapTxLocks := fun _ => rfl
  simp only [hlocks]
  split
  · rfl
  · split_ifs <;> rfl

theorem completeLock_withVotes (lock : CTransactionLock) (vote : CConsensusVote) :
    completeLock env c (ix.withVotes m) lock vote = (completeLock env c ix lock vote).map (·.withVotes m) := by
  have hreq : ∀ ix : InstantX, (ix.withVotes m).mapTxLockReq = ix.mapTxLockReq := fun _ => rfl
  have hrejected : ∀ ix : InstantX, (ix.withVotes m).mapTxLockReqRejected = ix.mapTxLockReqRejected :=
    fun _ => rfl
  have hlock : ∀ (ix : InstantX) tx, lockInputs (ix.withVotes m) tx vote.txHash =
      (lockInputs ix tx vote.txHash).withVotes m := fun _ _ => rfl
  have hnew : ∀ req, { ix.withVotes m with mapTxLockReq := req } =
      InstantX.withVotes { ix with mapTxLockReq := req } m := fun _ => rfl
  simp only [completeLock, hreq, hnew, checkForConflictingLocks_withVotes]
  generalize (ix.mapTxLockReq.lookup vote.txHash).getD (nullTransaction c) = tx
  generalize checkForConflictingLocks env c _ tx = checked
  cases checked.1 with
  | true => rfl
  | false =>
    simp only [Bool.false_eq_true, if_false, hlock]
    by_cases hknown : (checked.2.mapTxLockReq.lookup vote.txHash).isSome
    · rw [if_pos hknown, if_pos hknown, hrejected]
      split_ifs <;> rfl
    · rw [if_neg hknown, if_neg hknown, hrejected]
      split_ifs <;> rfl

theorem processConsensusVote_withVotes (vote : CConsensusVote) :
    processConsensusVote env c (ix.withVotes m) vote =
      (processConsensusVote env c ix vote).map fun r => (r.1, r.2.withVotes m) := by
  have hadd : addVote c (ix.withVotes m) vote =
      ((addVote c ix vote).1, (addVote c ix vote).2.withVotes m) := rfl
  cases hpass : passesChecks c vote with
  | false =>
    rw [processConsensusVote_rejected hpass, processConsensusVote_rejected hpass]
    rfl
  | true =>
    rw [processConsensusVote_passed hpass, processConsensusVote_passed hpass, hadd]
    split_ifs with hcount
    · simp only [completeLock_withVotes, Option.map_map]
      rfl
    · rfl

end

end

theorem noteUnknownVote_withVotes (c : IxCtx) (ix : InstantX) (m : StdMap Uint256 CConsensusVote)
    (vote : CConsensusVote) :
    noteUnknownVote c (ix.withVotes m) vote = (noteUnknownVote c ix vote).withVotes m := by
  have hreq : (ix.withVotes m).mapTxLockReq = ix.mapTxLockReq := rfl
  have hrejected : (ix.withVotes m).mapTxLockReqRejected = ix.mapTxLockReqRejected := rfl
  have hunknown : (ix.withVotes m).mapUnknownVotes = ix.mapUnknownVotes := rfl
  simp only [noteUnknownVote, hreq, hrejected, hunknown]
  split_ifs <;> rfl

/-! ### Two runs -/

/-- The first maps have seen forged votes that the second ones have not seen, and else are the same. -/
structure Alike (forged : CConsensusVote → Bool) (ix ix' : InstantX) : Prop where
  maps : ix = ix'.withVotes ix.mapTxLockVote
  seen : ∀ id, ix'.Seen id → ix.Seen id
  stored : ∀ id v, ix.mapTxLockVote.lookup id = some v → forged v = true ∨ ix'.Seen id

/-- A function that does not look at the seen votes, and leaves them as they are. -/
def Blind (f : InstantX → Option InstantX) : Prop :=
  ∀ ix m, f (ix.withVotes m) = (f ix).map (·.withVotes m)

theorem Blind.votes {f : InstantX → Option InstantX} (hf : Blind f) (h : f ix = some ix') :
    ix'.mapTxLockVote = ix.mapTxLockVote := by
  have hsame : f (ix.withVotes ix.mapTxLockVote) = (f ix).map (·.withVotes ix.mapTxLockVote) := hf ix _
  rw [show ix.withVotes ix.mapTxLockVote = ix from rfl, h, Option.map_some, Option.some.injEq] at hsame
  rw [hsame]
  rfl

theorem Alike.blind {f : InstantX → Option InstantX} (hf : Blind f) (h : Alike forged ix ix') :
    Option.Rel (Alike forged) (f ix) (f ix') := by
  rw [h.maps, hf]
  cases hok : f ix' with
  | none => exact .none
  | some ix1 =>
    have hvotes := hf.votes hok
    refine .some ⟨rfl, fun id hid => h.seen id ?_, fun id v hv => ?_⟩
    · rwa [InstantX.Seen, hvotes] at hid
    · rw [InstantX.Seen, hvotes]
      exact h.stored id v hv

/-- The same for a function that always has a result. -/
theorem Alike.map {g : InstantX → InstantX} (hg : ∀ ix m, g (ix.withVotes m) = (g ix).withVotes m)
    (h : Alike forged ix ix') : Alike forged (g ix) (g ix') := by
  have hblind : Blind fun ix => some (g ix) := fun ix m => congrArg some (hg ix m)
  cases h.blind hblind with
  | some h1 => exact h1

theorem Alike.storeVote (h : Alike forged ix ix') (vote : CConsensusVote) :
    Alike forged (ix.storeVote vote) (ix'.storeVote vote) := by
  refine ⟨?_, fun id hid => ?_, fun id v hv => ?_⟩
  · rw [h.maps]
    rfl
  · rw [seen_storeVote] at hid ⊢
    exact hid.imp_left (h.seen id)
  · rw [seen_storeVote]
    by_cases hid : id = vote.getHash
    · exact .inr (.inr hid)
    · rw [InstantX.storeVote, AList.lookup_insert_ne hid] at hv
      exact (h.stored id v hv).imp_right .inl

theorem Alike.storeForged (h : Alike forged ix ix') (hforged : forged vote = true) :
    Alike forged (ix.storeVote vote) ix' := by
  refine ⟨?_, fun id hid => seen_storeVote.mpr (.inl (h.seen id hid)), fun id v hv => ?_⟩
  · rw [h.maps]
    rfl
  · by_cases hid : id = vote.getHash
    · subst hid
      rw [InstantX.storeVote, AList.lookup_insert, Option.some.injEq] at hv
      exact .inl (hv ▸ hforged)
    · rw [InstantX.storeVote, AList.lookup_insert_ne hid] at hv
      exact h.stored id v hv

/-- The vote of this node, if it is one of the masternodes that vote. -/
def ownVote (env : Env) (c : IxCtx) (tx : CTransaction) (nBlockHeight : Int) : Option CConsensusVote :=
  let n := c.getMasternodeRank c.activeVin nBlockHeight
  if !c.fMasterNode then none
  else if n = -1 then none
  else if instantXSignaturesTotal < n then none
  else
    let vote : CConsensusVote :=
      { vinMasternode := c.activeVin, txHash := env.getHash tx, nBlockHeight := nBlockHeight }
    (c.sign vote).bind fun vchSig =>
      let vote := { vote with vchMasterNodeSignature := vchSig }
      if !c.signatureValid vote then none else some vote

theorem doConsensusVote_eq (env : Env) (c : IxCtx) (ix : InstantX) (tx : CTransaction)
    (nBlockHeight : Int) :
    doConsensusVote env c ix tx nBlockHeight = (ownVote env c tx nBlockHeight).elim ix ix.storeVote := by
  simp only [doConsensusVote, ownVote]
  split_ifs
  · rfl
  · rfl
  · rfl
  · cases c.sign ⟨c.activeVin, env.getHash tx, nBlockHeight, []⟩ with
    | none => rfl
    | some vchSig =>
      simp only [Option.bind_some]
      split_ifs <;> rfl

/-! ### Messages and clean-ups -/

theorem processLockVote_withVotes (env : Env) (c : IxCtx) (ix : InstantX)
    (m : StdMap Uint256 CConsensusVote) (vote : CConsensusVote) :
    (processConsensusVote env c (ix.withVotes m) vote).map (fun r =>
        if r.1 then noteUnknownVote c r.2 vote else r.2) =
      ((processConsensusVote env c ix vote).map fun r =>
        if r.1 then noteUnknownVote c r.2 vote else r.2).map (·.withVotes m) := by
  rw [processConsensusVote_withVotes, Option.map_map, Option.map_map]
  congr 1
  funext r
  simp only [Function.comp_apply, noteUnknownVote_withVotes]
  split_ifs <;> rfl

theorem Alike.lockVote (env : Env) (h : Alike forged ix ix')
    (hsilenced : ix.Seen vote.getHash → ¬ ix'.Seen vote.getHash →
    passesChecks c vote = false) :
    Option.Rel (Alike forged) (processLockVote env c ix vote) (processLockVote env c ix' vote) := by
  have hblind : Blind fun ix => (processConsensusVote env c ix vote).map fun r =>
      if r.1 then noteUnknownVote c r.2 vote else r.2 :=
    fun ix m => processLockVote_withVotes env c ix m vote
  rw [processLockVote_eq, processLockVote_eq]
  split_ifs with hseen hseen' hseen'
  · exact .some h
  · -- the vote would have been noted as seen and no more
    rw [processConsensusVote_rejected (hsilenced hseen hseen')]
    refine .some ⟨?_, fun id hid => ?_, fun id v hv => ?_⟩
    · rw [h.maps]
      rfl
    · rcases seen_storeVote.mp hid with hid | rfl
      · exact h.seen id hid
      · exact hseen
    · exact (h.stored id v hv).imp_right fun hid => seen_storeVote.mpr (.inl hid)
  · exact absurd (h.seen _ hseen') hseen
  · exact (h.storeVote vote).blind hblind

theorem Alike.request (h : Alike forged ix ix') (c : IxCtx) (node : Node) (tx : CTransaction) :
    Option.Rel (Alike forged) ((processLockRequest env c node ix tx).map Prod.snd)
      ((processLockRequest env c node ix' tx).map Prod.snd) := by
  have hcreate : Alike forged (createNewLock env c node ix tx).2 (createNewLock env c node ix' tx).2 :=
    Alike.map (g := fun ix => (createNewLock env c node ix tx).2)
      (fun ix m => congrArg Prod.snd (createNewLock_withVotes env c node ix m tx)) h
  have hreq : ∀ {ix ix' : InstantX}, Alike forged ix ix' →
      Alike forged { ix with mapTxLockReq := ix.mapTxLockReq.insert (env.getHash tx) tx }
        { ix' with mapTxLockReq := ix'.mapTxLockReq.insert (env.getHash tx) tx } :=
    Alike.map (g := fun ix => { ix with mapTxLockReq := ix.mapTxLockReq.insert (env.getHash tx) tx })
      fun _ _ => rfl
  have hheight : (createNewLock env c node ix tx).1 = (createNewLock env c node ix' tx).1 := by
    rw [h.maps, createNewLock_withVotes]
  have haccepts : acceptsRequest env c ix tx = acceptsRequest env c ix' tx := by
    rw [h.maps]
    rfl
  have hctx : (createNewLock env c node ix tx).2.ctx c.ctx = (createNewLock env c node ix' tx).2.ctx c.ctx := by
    rw [hcreate.maps]
    rfl
  simp only [processLockRequest, haccepts, hctx, hheight]
  split_ifs
  · exact .some h
  · split
    · simp only [Option.map_some, doConsensusVote_eq]
      refine .some ?_
      cases ownVote env c tx (createNewLock env c node ix' tx).1 with
      | none => exact hreq hcreate
      | some own => exact hreq (hcreate.storeVote own)
    · simp only [Option.map_map]
      have hblind : Blind fun ix => rejectRequest env c ix tx :=
        fun ix m => rejectRequest_withVotes env c ix m tx
      have hrel := hcreate.blind hblind
      rw [Function.comp_def]
      simpa using hrel

/-- The seen votes that one round of `CleanTransactionLocksList` leaves. -/
def keptVotes (c : IxCtx) (ix : InstantX) (it : Sigma fun _ : Uint256 => CTransactionLock)
    (m : StdMap Uint256 CConsensusVote) : StdMap Uint256 CConsensusVote :=
  if it.2.expired c && (ix.mapTxLockReq.lookup it.2.txHash).isSome then
    (it.2.vecConsensusVotes.map CConsensusVote.getHash).foldl (fun m h => m.erase h) m
  else m

theorem cleanLock_withVotes (c : IxCtx) (ix : InstantX) (m : StdMap Uint256 CConsensusVote)
    (it : Sigma fun _ : Uint256 => CTransactionLock) :
    cleanLock c (ix.withVotes m) it = (cleanLock c ix it).withVotes (keptVotes c ix it m) := by
  have hreq : (ix.withVotes m).mapTxLockReq = ix.mapTxLockReq := rfl
  simp only [cleanLock, keptVotes, hreq]
  cases it.2.expired c with
  | false => rfl
  | true => cases ix.mapTxLockReq.lookup it.2.txHash <;> rfl

theorem lookup_keptVotes (c : IxCtx) (ix : InstantX) (it : Sigma fun _ : Uint256 => CTransactionLock) :
    ∃ ids : List Uint256, ∀ m id,
      (keptVotes c ix it m).lookup id = if id ∈ ids then none else m.lookup id := by
  unfold keptVotes
  split_ifs
  · exact ⟨_, fun m id => MapLoop.lookup_foldl_erase _ m id⟩
  · exact ⟨[], fun m id => by simp⟩

theorem Alike.cleanLock (h : Alike forged ix ix') (c : IxCtx)
    (it : Sigma fun _ : Uint256 => CTransactionLock) :
    Alike forged (cleanLock c ix it) (cleanLock c ix' it) := by
  obtain ⟨ids, hkept⟩ := lookup_keptVotes c ix' it
  have hix : Sphinx.cleanLock c ix it =
      (Sphinx.cleanLock c ix' it).withVotes (keptVotes c ix' it ix.mapTxLockVote) := by
    conv_lhs => rw [h.maps]
    exact cleanLock_withVotes c ix' _ it
  have hix' : (Sphinx.cleanLock c ix' it).mapTxLockVote = keptVotes c ix' it ix'.mapTxLockVote :=
    congrArg InstantX.mapTxLockVote (cleanLock_withVotes c ix' ix'.mapTxLockVote it)
  rw [hix]
  refine ⟨rfl, fun id hid => ?_, fun id v hv => ?_⟩
  · rw [InstantX.Seen, hix', hkept] at hid
    unfold InstantX.Seen
    change ((keptVotes c ix' it ix.mapTxLockVote).lookup id).isSome = true
    rw [hkept]
    by_cases hmem : id ∈ ids
    · rw [if_pos hmem] at hid
      cases hid
    · rw [if_neg hmem] at hid ⊢
      exact h.seen id hid
  · change (keptVotes c ix' it ix.mapTxLockVote).lookup id = some v at hv
    rw [InstantX.Seen, hix', hkept]
    rw [hkept] at hv
    by_cases hmem : id ∈ ids
    · rw [if_pos hmem] at hv
      cases hv
    · rw [if_neg hmem] at hv ⊢
      exact h.stored id v hv

theorem Alike.clean (h : Alike forged ix ix') (c : IxCtx) (node : Node) :
    Alike forged (cleanTransactionLocksList c node ix) (cleanTransactionLocksList c node ix') := by
  have hfold : ∀ (l : List (Sigma fun _ : Uint256 => CTransactionLock)) {ix ix' : InstantX},
      Alike forged ix ix' → Alike forged (l.foldl (Sphinx.cleanLock c) ix) (l.foldl (Sphinx.cleanLock c) ix') := by
    intro l
    induction l with
    | nil => exact fun h => h
    | cons it l ih => exact fun h => ih (h.cleanLock c it)
  have hlocks : ix.mapTxLocks = ix'.mapTxLocks := by
    rw [h.maps]
    rfl
  unfold cleanTransactionLocksList
  split_ifs
  · exact h
  · rw [hlocks]
    exact hfold _ h

/-! ### Runs -/

/-- The event is not a forged vote. -/
def IxEvent.genuine (forged : CConsensusVote → Bool) : IxEvent → Bool
  | .message _ _ (.txlvote vote) => !forged vote
  | _ => true

/-- A forged vote does not pass the checks: it is signed by nobody, or by a masternode that does not
vote. -/
def ForgedFail (forged : CConsensusVote → Bool) (events : List IxEvent) : Prop :=
  ∀ c node vote, .message c node (.txlvote vote) ∈ events → forged vote = true →
    passesChecks c vote = false

/-- No forged vote has been stored under the id of a vote that passes the checks. -/
def NotSilenced (forged : CConsensusVote → Bool) (ix : InstantX) : IxEvent → Prop
  | .message c _ (.txlvote vote) => c.active = true → passesChecks c vote = true →
    ∀ v, ix.mapTxLockVote.lookup vote.getHash = some v → forged v = false
  | _ => True

theorem ixStep_forged {e : IxEvent} (h : Alike forged ix ix') (hforged : e.genuine forged = false)
    (hfail : ∀ c node vote, e = .message c node (.txlvote vote) → forged vote = true →
      passesChecks c vote = false) : ∃ ix1, ixStep env ix e = some ix1 ∧ Alike forged ix1 ix' := by
  cases e with
  | clean c node => cases hforged
  | message c node msg =>
    cases msg with
    | txlreq tx => cases hforged
    | txlvote vote =>
      have hvote : forged vote = true := by simpa [IxEvent.genuine] using hforged
      simp only [ixStep, processMessageInstantX_eq, processLockVote_eq,
        processConsensusVote_rejected (hfail c node vote rfl hvote)]
      split_ifs
      · exact ⟨ix, rfl, h⟩
      · exact ⟨ix.storeVote vote, rfl, h.storeForged hvote⟩
      · exact ⟨ix, rfl, h⟩

theorem ixStep_alike {e : IxEvent} (h : Alike forged ix ix') (hsafe : NotSilenced forged ix e) :
    Option.Rel (Alike forged) (ixStep env ix e) (ixStep env ix' e) := by
  cases e with
  | clean c node => exact .some (h.clean c node)
  | message c node msg =>
    simp only [ixStep, processMessageInstantX_eq]
    split_ifs with hactive
    · cases msg with
      | txlreq tx => exact h.request c node tx
      | txlvote vote =>
        have hsilenced : ix.Seen vote.getHash → ¬ ix'.Seen vote.getHash → passesChecks c vote = false := by
          intro hseen hseen'
          by_contra hpass
          obtain ⟨v, hv⟩ := Option.isSome_iff_exists.mp hseen
          rcases h.stored _ v hv with hforged | hstored
          · rw [hsafe hactive (by simpa using hpass) v hv] at hforged
            cases hforged
          · exact hseen' hstored
        have hrel := h.lockVote env hsilenced
        simpa [Option.map_map, Function.comp_def] using hrel
    · exact .some h

theorem alike_empty (forged : CConsensusVote → Bool) : Alike forged {} {} :=
  ⟨rfl, fun _ hid => hid, fun _ _ hv => by cases hv⟩

/-- **A forged vote changes nothing** but the seen votes, as long as none stands in the way of a vote that
passes the checks: the run ends with the locks, the requests and the locked inputs of the run without the
forged votes. -/
theorem forgedVotes_harmless {events : List IxEvent} (hfail : ForgedFail forged events)
    (hsafe : Run.EveryStep (ixStep env) (NotSilenced forged) events {}) :
    (events.foldlM (ixStep env) {}).map InstantX.forgetVotes =
      ((events.filter (IxEvent.genuine forged)).foldlM (ixStep env) {}).map InstantX.forgetVotes := by
  have hfails : ∀ e ∈ events, ∀ _ : InstantX, ∀ c node vote, e = .message c node (.txlvote vote) →
      forged vote = true → passesChecks c vote = false :=
    fun e he _ c node vote heq => hfail c node vote (heq ▸ he)
  have hboth := Run.everyStep_and events hsafe (Run.everyStep_of_forall events hfails)
  have hrel := Run.rel_filter (R := Alike forged) (p := IxEvent.genuine forged)
    (fun h hp hQ => ixStep_forged h hp hQ.2) (fun h _ hQ => ixStep_alike h hQ.1) events
    (alike_empty forged) hboth
  generalize events.foldlM (ixStep env) {} = o at hrel ⊢
  generalize (events.filter (IxEvent.genuine forged)).foldlM (ixStep env) {} = o' at hrel ⊢
  cases hrel with
  | none => rfl
  | some h =>
    rw [Option.map_some, Option.map_some, h.maps]
    rfl

/-- Votes with the signature 1 are signed by their masternode. -/
def signedCtx : IxCtx :=
  { lockCtx fun _ => none with signatureValid := fun vote => vote.vchMasterNodeSignature = [1] }

/-- The votes without the signature 1. -/
def unsigned (vote : CConsensusVote) : Bool := vote.vchMasterNodeSignature ≠ [1]

theorem forgedVotes_harmless_other :
    ((voteEvents signedCtx [voteOf 7 0 2000 5 [0], voteOf 8 0 2000 5 [1]]).foldlM
        (ixStep (sampleEnv [])) {}).map InstantX.forgetVotes =
      ((voteEvents signedCtx [voteOf 8 0 2000 5 [1]]).foldlM (ixStep (sampleEnv [])) {}).map
        InstantX.forgetVotes := by
  have hstored : (ixStep (sampleEnv []) {} (.message signedCtx (sampleNode [])
      (.txlvote (voteOf 7 0 2000 5 [0])))).map
      (fun ix => ix.mapTxLockVote.lookup (voteOf 8 0 2000 5 [1]).getHash) = some none := by decide
  refine @forgedVotes_harmless _ unsigned _ ?_ ⟨?_, fun ix hix => ⟨?_, fun _ _ => trivial⟩⟩
  · intro c node vote hmem hforged
    obtain ⟨v, -, heq⟩ := List.mem_map.mp hmem
    cases heq
    simp only [unsigned, decide_eq_true_eq] at hforged
    simp [passesChecks, signedCtx, hforged]
  · intro _ _ v hv
    cases hv
  · intro _ _ v hv
    rw [hix, Option.map_some, Option.some.injEq] at hstored
    rw [hstored] at hv
    cases hv

/-- **A vote kept out by a forged one.**  The same vote with another signature arrives first, and the vote
of the masternode is not added to the lock. -/
theorem forgedVotes_silence :
    passesChecks signedCtx (voteOf 7 0 2000 5 [0]) = false ∧
    passesChecks signedCtx (voteOf 7 0 2000 5 [1]) = true ∧
    ((voteEvents signedCtx [voteOf 7 0 2000 5 [1]]).foldlM (ixStep (sampleEnv [])) {}).map
      (fun ix => ix.votesOf 2000) = some [voteOf 7 0 2000 5 [1]] ∧
    ((voteEvents signedCtx [voteOf 7 0 2000 5 [0], voteOf 7 0 2000 5 [1]]).foldlM
      (ixStep (sampleEnv [])) {}).map (fun ix => ix.votesOf 2000) = some [] := by
  refine ⟨by decide, by decide, by decide, by decide⟩

end Sphinx
