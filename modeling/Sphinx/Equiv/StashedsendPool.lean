import Sphinx.StashedsendPool

/-!
# The session of a masternode

`PoolSession` is what the bookkeeping of a pool is about: the outpoints and outputs of the entries, the
number of users, their collaterals and the denominations.  The operations move it in a few ways:

* `PoolSession.Moves`: a reset, entries that expire, a user that joins;
* `PoolSession.enter`: an entry that `AddEntry` takes;
* `PoolSession.lose`: an entry that it refuses.

`poolStep_other`, `poolStep_of_fits` and `poolStep_of_not_fits` say which operation does what.
-/

namespace Sphinx

inductive PoolOp
  | message (m : PoolMessage)
  | check
  | checkTimeout
  | checkForCompleteQueue

/-- An operation, with what it reads. -/
structure PoolEvent where
  ctx : PoolCtx
  op : PoolOp

structure PoolSession where
  entries : List (List COutPoint × List CTxOut)
  users : Int
  collaterals : List CTransaction
  denom : Int

namespace PoolSession

def empty : PoolSession := ⟨[], 0, [], 0⟩

/-- An entry is added. -/
def enter (s : PoolSession) (e : List COutPoint × List CTxOut) : PoolSession :=
  { s with entries := s.entries ++ [e] }

/-- A user less is counted. -/
def lose (s : PoolSession) : PoolSession := { s with users := s.users - 1 }

/-- What happens without an entry from a peer. -/
inductive Moves : PoolSession → PoolSession → Prop
  | reset (s : PoolSession) : Moves s empty
  | expire (s : PoolSession) {entries : List (List COutPoint × List CTxOut)}
      (h : entries.Sublist s.entries) : Moves s { s with entries := entries }
  | join (s : PoolSession) {denom : Int} (txCollateral : CTransaction)
      (hroom : max s.users 0 < poolMaxTransactions) (hdenom : 0 < s.users → denom = s.denom) :
      Moves s
        { s with
          users := max s.users 0 + 1
          collaterals := s.collaterals ++ [txCollateral]
          denom := denom }

end PoolSession

def CStashedSendEntry.shape (e : CStashedSendEntry) : List COutPoint × List CTxOut :=
  (e.sev.map fun s => s.prevout, e.vout)

namespace CStashedsendPool

/-- An operation.  None of them fails. -/
def poolStep (verifyScript : ScriptVerifier) (pool : CStashedsendPool) (e : PoolEvent) :
    Option CStashedsendPool :=
  some (match e.op with
    | .message m => processMessage verifyScript e.ctx pool m
    | .check => pool.check e.ctx
    | .checkTimeout => pool.checkTimeout e.ctx
    | .checkForCompleteQueue => pool.checkForCompleteQueue e.ctx)

def session (pool : CStashedsendPool) : PoolSession where
  entries := pool.entries.map CStashedSendEntry.shape
  users := pool.sessionUsers
  collaterals := pool.vecSessionCollateral
  denom := pool.sessionDenom

/-- The pool with one entry more. -/
def withEntry (pool : CStashedsendPool) (e : CStashedSendEntry) : CStashedsendPool :=
  { pool with entries := pool.entries ++ [e] }

/-- The pool is in no state that only clients reach. -/
def Quiet (pool : CStashedsendPool) : Prop := pool.state ≠ .error ∧ pool.state ≠ .success

/-- An operation that leaves the entries and the session alone. -/
structure Still (pool pool' : CStashedsendPool) : Prop where
  entries : pool'.entries = pool.entries
  session : pool'.session = pool.session
  quiet : pool.Quiet → pool'.Quiet

variable {verifyScript : ScriptVerifier} {ctx : PoolCtx} {pool pool' : CStashedsendPool} {e : PoolEvent}

/-! ### States -/

@[simp] theorem session_setNull : (pool.setNull ctx).session = .empty := rfl

theorem quiet_setNull : (pool.setNull ctx).Quiet := ⟨nofun, nofun⟩

theorem Still.refl (pool : CStashedsendPool) : Still pool pool := ⟨rfl, rfl, id⟩

theorem Still.trans {pool'' : CStashedsendPool} (h : Still pool pool') (h' : Still pool' pool'') :
    Still pool pool'' :=
  ⟨h'.entries.trans h.entries, h'.session.trans h.session, fun hq => h'.quiet (h.quiet hq)⟩

/-- `UpdateState` leaves entries and session alone. -/
theorem still_updateState (ctx : PoolCtx) (pool : CStashedsendPool) (newState : PoolStatus) :
    Still pool (pool.updateState ctx newState) := by
  unfold updateState
  by_cases h : newState = .error ∨ newState = .success
  · rw [if_pos h]
    exact .refl pool
  · rw [if_neg h]
    exact ⟨rfl, rfl, fun _ => not_or.mp h⟩

@[simp] theorem session_updateState (newState : PoolStatus) :
    (pool.updateState ctx newState).session = pool.session := (still_updateState ctx pool newState).session

theorem still_finalise (ctx : PoolCtx) (pool : CStashedsendPool) : Still pool (pool.finalise ctx) :=
  have h := still_updateState ctx pool .signing
  ⟨h.entries, h.session, h.quiet⟩

theorem still_ite {p : Prop} [Decidable p] (h : Still pool pool') :
    Still pool (if p then pool' else pool) := by
  split_ifs
  · exact h
  · exact .refl pool

/-! ### `Check` -/

/-- `CheckFinalTransaction` ends the session or leaves it alone. -/
theorem checkFinalTransaction_cases (ctx : PoolCtx) (hq : pool.Quiet) :
    (pool.checkFinalTransaction ctx).Quiet ∧
      ((pool.checkFinalTransaction ctx).session = pool.session
        ∨ (pool.checkFinalTransaction ctx).session = .empty) := by
  unfold checkFinalTransaction
  split_ifs
  · exact ⟨(still_updateState ctx _ _).quiet quiet_setNull, .inr (session_updateState _)⟩
  · exact ⟨hq, .inl rfl⟩
  · exact ⟨quiet_setNull, .inr session_setNull⟩

theorem check_cases (ctx : PoolCtx) (hq : pool.Quiet) : (pool.check ctx).Quiet ∧
    ((pool.check ctx).session = pool.session
      ∨ (pool.signaturesComplete = true ∧ (pool.check ctx).session = .empty)) := by
  unfold check
  extract_lets pool₁ pool₂ pool₃
  have hstill : Still pool pool₂ :=
    (still_ite (still_updateState ctx pool _)).trans (still_ite (still_finalise ctx _))
  have hcomplete : pool₂.signaturesComplete = pool.signaturesComplete := by
    unfold signaturesComplete inputs
    rw [hstill.entries]
  have h₃ : pool₃.Quiet ∧
      (pool₃.session = pool.session ∨ (pool.signaturesComplete = true ∧ pool₃.session = .empty)) := by
    by_cases hsigned : pool₂.state = .signing ∧ pool₂.signaturesComplete = true
    · have hupdate := hstill.trans (still_updateState ctx pool₂ .transmission)
      obtain ⟨hquiet, hsession⟩ := checkFinalTransaction_cases ctx (hupdate.quiet hq)
      rw [show pool₃ = _ from if_pos hsigned]
      rw [hupdate.session] at hsession
      exact ⟨hquiet, hsession.imp id fun hempty => ⟨hcomplete ▸ hsigned.2, hempty⟩⟩
    · rw [show pool₃ = _ from if_neg hsigned]
      exact ⟨hstill.quiet hq, .inl hstill.session⟩
  rw [if_neg fun h => h.1.elim h₃.1.1 h₃.1.2]
  exact h₃

/-- An operation that moves the session. -/
structure Moved (pool pool' : CStashedsendPool) : Prop where
  quiet : pool'.Quiet
  moves : Relation.ReflTransGen PoolSession.Moves pool.session pool'.session

theorem Still.moved (h : Still pool pool') (hq : pool.Quiet) : Moved pool pool' := by
  refine ⟨h.quiet hq, ?_⟩
  rw [h.session]

theorem Moved.trans {pool'' : CStashedsendPool} (h : Moved pool pool') (h' : Moved pool' pool'') :
    Moved pool pool'' := ⟨h'.quiet, h.moves.trans h'.moves⟩

theorem moved_of_empty (hq : pool'.Quiet) (h : pool'.session = .empty) : Moved pool pool' := by
  refine ⟨hq, ?_⟩
  rw [h]
  exact .single (.reset _)

theorem moved_setNull (ctx : PoolCtx) (pool : CStashedsendPool) : Moved pool (pool.setNull ctx) :=
  moved_of_empty quiet_setNull session_setNull

theorem moved_check (ctx : PoolCtx) (hq : pool.Quiet) : Moved pool (pool.check ctx) := by
  obtain ⟨hquiet, hsession | ⟨-, hempty⟩⟩ := check_cases ctx hq
  · refine ⟨hquiet, ?_⟩
    rw [hsession]
  · exact moved_of_empty hquiet hempty

/-! ### `CheckTimeout` and `CheckForCompleteQueue` -/

theorem moved_expireEntries (ctx : PoolCtx) (hq : pool.Quiet) : Moved pool (pool.expireEntries ctx) := by
  unfold expireEntries
  dsimp only
  split_ifs
  · exact moved_setNull ctx pool
  · exact ⟨hq, .single (.expire pool.session (List.filter_sublist.map _))⟩

theorem moved_checkTimeout (ctx : PoolCtx) (hq : pool.Quiet) : Moved pool (pool.checkTimeout ctx) := by
  have hreset : ∀ pool : CStashedsendPool, Moved pool ((pool.setNull ctx).updateState ctx .error) :=
    fun pool => (moved_setNull ctx pool).trans ((still_updateState ctx _ _).moved quiet_setNull)
  unfold checkTimeout
  extract_lets pool₁ pool₂
  have h₁ : Moved pool pool₂ := by
    unfold pool₂ pool₁
    split_ifs
    · exact (moved_expireEntries ctx hq).trans (moved_setNull ctx _)
    · exact moved_expireEntries ctx hq
    · exact hreset pool
    · exact (Still.refl pool).moved hq
  split_ifs
  · exact h₁.trans (hreset _)
  · exact h₁

theorem still_checkForCompleteQueue (ctx : PoolCtx) (pool : CStashedsendPool) :
    Still pool (pool.checkForCompleteQueue ctx) := still_ite (still_updateState ctx pool _)

/-! ### Signatures -/

/-- A signature does not change which outputs are spent. -/
theorem prevouts_addSigLoop {newVin : CTxIn} : ∀ {sev sev' : List CTxDSIn},
    CStashedSendEntry.addSigLoop newVin sev = some sev' →
      (sev'.map fun s => s.prevout) = sev.map fun s => s.prevout := by
  intro sev
  induction sev with
  | nil => exact nofun
  | cons s sev ih =>
    intro sev' h
    unfold CStashedSendEntry.addSigLoop at h
    split_ifs at h
    · cases h
      rfl
    · rw [Option.map_eq_some_iff] at h
      obtain ⟨sev', h, rfl⟩ := h
      rw [List.map_cons, List.map_cons, ih h]

theorem shapes_addSigToEntries {newVin : CTxIn} : ∀ {entries entries' : List CStashedSendEntry},
    addSigToEntries newVin entries = some entries' →
      entries'.map CStashedSendEntry.shape = entries.map CStashedSendEntry.shape := by
  intro entries
  induction entries with
  | nil => exact nofun
  | cons e entries ih =>
    intro entries' h
    unfold addSigToEntries at h
    cases hsig : e.addSig newVin with
    | some e' =>
      rw [hsig] at h
      cases h
      obtain ⟨sev, hsev, rfl⟩ := Option.map_eq_some_iff.mp hsig
      rw [List.map_cons, List.map_cons, CStashedSendEntry.shape, CStashedSendEntry.shape,
        prevouts_addSigLoop hsev]
    | none =>
      rw [hsig, Option.map_eq_some_iff] at h
      obtain ⟨entries', h, rfl⟩ := h
      rw [List.map_cons, List.map_cons, ih h]

section

variable (ctx : PoolCtx) (verifyScript : ScriptVerifier)

theorem moved_addScriptSig (newVin : CTxIn)
    (hq : pool.Quiet) : Moved pool (pool.addScriptSig ctx verifyScript newVin).2 := by
  have hself : Moved pool pool := (Still.refl pool).moved hq
  unfold addScriptSig
  split_ifs
  · exact hself
  · exact hself
  · dsimp only
    cases h : addSigToEntries newVin pool.entries with
    | none => exact ⟨hq, .refl⟩
    | some entries =>
      refine ⟨hq, ?_⟩
      unfold session
      rw [shapes_addSigToEntries h]

theorem moved_addScriptSigRounds (sigs : List CTxIn) :
    ∀ {s : Bool × CStashedsendPool}, s.2.Quiet →
      Moved s.2 (sigs.foldl (addScriptSigRound ctx verifyScript) s).2 := by
  induction sigs with
  | nil => exact fun hq => (Still.refl _).moved hq
  | cons item sigs ih =>
    intro s hq
    have h := moved_addScriptSig ctx verifyScript item hq
    exact h.trans (ih (s := addScriptSigRound ctx verifyScript s item) h.quiet)

theorem moved_processDss (nVersion : Int)
    (sigs : List CTxIn) (hq : pool.Quiet) :
    Moved pool (pool.processDss ctx verifyScript nVersion sigs) := by
  have h := moved_addScriptSigRounds ctx verifyScript sigs (s := (false, pool)) hq
  unfold processDss
  dsimp only
  split_ifs
  · exact (Still.refl pool).moved hq
  · exact h.trans (moved_check ctx h.quiet)
  · exact h

end

/-! ### Users that join -/

theorem moved_of_join (nDenom : Int) (txCollateral : CTransaction) (hq : pool'.Quiet)
    (hroom : max pool.sessionUsers 0 < poolMaxTransactions)
    (hdenom : 0 < pool.sessionUsers → nDenom = pool.sessionDenom)
    (h : pool'.session =
      { pool.session with
        users := max pool.sessionUsers 0 + 1
        collaterals := pool.vecSessionCollateral ++ [txCollateral]
        denom := nDenom }) : Moved pool pool' := by
  refine ⟨hq, ?_⟩
  rw [h]
  exact .single (.join pool.session txCollateral hroom hdenom)

theorem moved_isCompatibleWithSession (ctx : PoolCtx) (nDenom : Int) (txCollateral : CTransaction)
    (hq : pool.Quiet) : Moved pool (pool.isCompatibleWithSession ctx nDenom txCollateral).2 := by
  have hself : Moved pool pool := (Still.refl pool).moved hq
  unfold isCompatibleWithSession
  by_cases h0 : nDenom = 0
  · rw [if_pos h0]
    exact hself
  by_cases hvalid : (!ctx.isCollateralValid txCollateral) = true
  · rw [if_neg h0, if_pos hvalid]
    exact hself
  rw [if_neg h0, if_neg hvalid]
  by_cases hneg : pool.sessionUsers < 0
  · -- a negative number of users counts as none
    rw [if_pos hneg]
    dsimp only
    rw [if_pos rfl]
    refine moved_of_join nDenom txCollateral ((still_updateState ctx _ _).quiet hq) ?_ ?_ ?_
    · rw [max_eq_right hneg.le]
      decide
    · omega
    · rw [max_eq_right hneg.le]
      rfl
  · rw [if_neg hneg]
    have hmax : max pool.sessionUsers 0 = pool.sessionUsers := max_eq_left (not_lt.mp hneg)
    dsimp only
    split_ifs with hzero hfull hstate hdenom
    · refine moved_of_join nDenom txCollateral ((still_updateState ctx _ _).quiet hq) ?_ ?_ ?_
      · rw [hmax, hzero]
        decide
      · omega
      · rw [hmax]
        rfl
    · exact hself
    · exact hself
    · exact hself
    · refine moved_of_join nDenom txCollateral hq ?_ (fun _ => not_not.mp hdenom) ?_
      · rw [hmax]
        exact not_le.mp hfull
      · rw [hmax, not_not.mp hdenom]
        rfl

/-- `dsa` opens the session, joins it or leaves it alone. -/
theorem moved_processDsa (ctx : PoolCtx) (nVersion nDenom : Int) (txCollateral : CTransaction)
    (hq : pool.Quiet) : Moved pool (pool.processDsa ctx nVersion nDenom txCollateral).2 := by
  have hself : Moved pool pool := (Still.refl pool).moved hq
  unfold processDsa
  split_ifs
  · exact hself
  · exact hself
  · exact hself
  · exact moved_isCompatibleWithSession ctx nDenom txCollateral hq

/-! ### Entries -/

/-- The checks of `dsi` before `AddEntry`. -/
structure Admits (ctx : PoolCtx) (pool : CStashedsendPool) (nVersion : Int) (vin : List CTxIn)
    (vout : List CTxOut) : Prop where
  version : minPoolPeerProtoVersion ≤ nVersion
  ready : pool.isSessionReady = true
  compatible : pool.isCompatibleWithEntries vout = true
  checked : checkEntry ctx vin vout = .ok ()

/-- The checks of `AddEntry`. -/
structure Fits (ctx : PoolCtx) (pool : CStashedsendPool) (vin : List CTxIn) (nAmount : CAmount)
    (txCollateral : CTransaction) : Prop where
  valid : ∀ txin ∈ vin, txin.prevout.isNull = false ∧ 0 ≤ nAmount
  collateral : ctx.isCollateralValid txCollateral = true
  room : (pool.entries.length : Int) < poolMaxTransactions
  unknown : ∀ s ∈ pool.inputs, s.toCTxIn ∉ vin

variable {nVersion : Int} {vin : List CTxIn} {nAmount : CAmount} {txCollateral : CTransaction}
  {vout : List CTxOut}

/-- `AddEntry` takes what passes its checks. -/
theorem addEntry_of_fits (h : pool.Fits ctx vin nAmount txCollateral) :
    pool.addEntry ctx vin nAmount txCollateral vout
      = (.ok (), pool.withEntry (.add ctx.nTime vin nAmount txCollateral vout)) := by
  have hvalid : ¬(vin.any fun txin => txin.prevout.isNull || decide (nAmount < 0)) = true := by
    rw [List.any_eq_true]
    rintro ⟨txin, hmem, hbad⟩
    obtain ⟨hnull, hamount⟩ := h.valid txin hmem
    rw [hnull, Bool.false_or, decide_eq_true_iff] at hbad
    exact absurd hamount (not_le.mpr hbad)
  have hknown : ¬(vin.any fun txin => pool.inputs.any fun s => s.toCTxIn = txin) = true := by
    simpa using fun s hs hmem => h.unknown s hmem hs
  unfold addEntry
  rw [if_neg hvalid, if_neg (by rw [h.collateral]; decide), if_neg (not_le.mpr h.room), if_neg hknown]
  rfl

theorem addEntry_of_not_fits (vout : List CTxOut) (h : ¬pool.Fits ctx vin nAmount txCollateral) : ∃ text,
    pool.addEntry ctx vin nAmount txCollateral vout = pool.refuse text := by
  unfold addEntry
  split_ifs with hvalid hcollateral hfull hknown
  · exact ⟨_, rfl⟩
  · exact ⟨_, rfl⟩
  · exact ⟨_, rfl⟩
  · exact ⟨_, rfl⟩
  · refine absurd ⟨?_, ?_, not_le.mp hfull, ?_⟩ h
    · simpa using hvalid
    · simpa using hcollateral
    · intro s hs hmem
      exact hknown (List.any_eq_true.mpr ⟨_, hmem, List.any_eq_true.mpr ⟨s, hs, decide_eq_true rfl⟩⟩)

theorem processDsi_of_fits (h : Admits ctx pool nVersion vin vout)
    (hfits : pool.Fits ctx vin nAmount txCollateral) :
    (pool.processDsi ctx nVersion vin nAmount txCollateral vout).2
      = (pool.withEntry (.add ctx.nTime vin nAmount txCollateral vout)).check ctx := by
  unfold processDsi
  rw [if_neg (not_lt.mpr h.version), if_neg (by rw [h.ready]; decide),
    if_neg (by rw [h.compatible]; decide)]
  simp only [h.checked, addEntry_of_fits hfits]

theorem processDsi_of_not_fits (h : Admits ctx pool nVersion vin vout)
    (hfits : ¬pool.Fits ctx vin nAmount txCollateral) :
    (pool.processDsi ctx nVersion vin nAmount txCollateral vout).2 =
      { pool with sessionUsers := pool.sessionUsers - 1 } := by
  obtain ⟨text, hadd⟩ := addEntry_of_not_fits vout hfits
  unfold processDsi
  rw [if_neg (not_lt.mpr h.version), if_neg (by rw [h.ready]; decide),
    if_neg (by rw [h.compatible]; decide)]
  simp only [h.checked, hadd, refuse]

theorem processDsi_of_not_admits (h : ¬Admits ctx pool nVersion vin vout) :
    (pool.processDsi ctx nVersion vin nAmount txCollateral vout).2 = pool := by
  unfold processDsi
  split_ifs with hversion hready hcompatible
  · rfl
  · rfl
  · rfl
  · cases hchecked : checkEntry ctx vin vout with
    | error text => rfl
    | ok u =>
      refine absurd ⟨not_lt.mp hversion, ?_, ?_, hchecked⟩ h
      · simpa using hready
      · simpa using hcompatible

theorem checkEntry_ok (h : checkEntry ctx vin vout = .ok ()) :
    vin ≠ [] ∧ (vin.map fun txin => txin.prevout).Nodup := by
  unfold checkEntry at h
  extract_lets tx prevOuts nValueIn nValueOut at h
  have htx : tx.checkTransaction = .ok () := by
    split at h
    · cases h
    · split_ifs at h with _ _ _ hvalid
      simp only [Bool.not_eq_true, Bool.not_eq_false', Bool.and_eq_true] at hvalid
      cases hok : tx.checkTransaction with
      | ok u => rfl
      | error err => rw [hok] at hvalid; cases hvalid.1
  obtain ⟨hvin, -, hnodup, -⟩ := CTransaction.checkTransaction_ok htx
  exact ⟨hvin, hnodup⟩

theorem not_signaturesComplete_add (pool : CStashedsendPool) (nTime : Int) (nAmount : CAmount)
    (txCollateral : CTransaction) (vout : List CTxOut) (hvin : vin ≠ []) :
    ¬(pool.withEntry (.add nTime vin nAmount txCollateral vout)).signaturesComplete = true := by
  obtain ⟨txin, hmem⟩ := List.exists_mem_of_ne_nil vin hvin
  unfold signaturesComplete
  rw [List.all_eq_true]
  intro hall
  exact Bool.false_ne_true (hall { txin with }
    (List.mem_flatMap.mpr ⟨_, List.mem_append_right _ List.mem_cons_self, List.mem_map_of_mem hmem⟩))

theorem shape_add (nTime : Int) (vin : List CTxIn) (nAmount : CAmount) (txCollateral : CTransaction)
    (vout : List CTxOut) : (CStashedSendEntry.add nTime vin nAmount txCollateral vout).shape
      = (vin.map fun txin => txin.prevout, vout) := by
  unfold CStashedSendEntry.shape CStashedSendEntry.add
  rw [List.map_map]
  rfl

/-! ### Steps -/

/-- The event is a `dsi` message that reaches `AddEntry`. -/
def AsksToEnter (pool : CStashedsendPool) (e : PoolEvent) (vin : List CTxIn) (nAmount : CAmount)
    (txCollateral : CTransaction) (vout : List CTxOut) : Prop :=
  ∃ nVersion, e.op = .message (.dsi nVersion vin nAmount txCollateral vout) ∧
    (e.ctx.fLiteMode = false ∧ e.ctx.fSlept = false ∧ e.ctx.fBlockchainSynced = true) ∧
    Admits e.ctx pool nVersion vin vout

section

variable (h : pool.AsksToEnter e vin nAmount txCollateral vout)

include h

theorem AsksToEnter.poolStep_eq : ∃ nVersion,
    Admits e.ctx pool nVersion vin vout ∧ poolStep verifyScript pool e =
      some (pool.processDsi e.ctx nVersion vin nAmount txCollateral vout).2 := by
  obtain ⟨nVersion, hop, ⟨hlite, hslept, hsynced⟩, hadmits⟩ := h
  refine ⟨nVersion, hadmits, ?_⟩
  unfold poolStep processMessage
  simp [hop, hlite, hslept, hsynced]

/-- **An entry that is refused** counts a user less. -/
theorem poolStep_of_not_fits
    (hfits : ¬pool.Fits e.ctx vin nAmount txCollateral) :
    poolStep verifyScript pool e = some { pool with sessionUsers := pool.sessionUsers - 1 } := by
  obtain ⟨nVersion, hadmits, hstep⟩ := h.poolStep_eq
  rw [hstep, processDsi_of_not_fits hadmits hfits]

/-- **An entry that is taken.** It has inputs, and they are not signed, so the session goes on. -/
theorem poolStep_of_fits
    (hfits : pool.Fits e.ctx vin nAmount txCollateral) (hq : pool.Quiet) : ∃ pool',
    poolStep verifyScript pool e = some pool' ∧ pool'.Quiet ∧
      pool'.session = pool.session.enter (vin.map fun txin => txin.prevout, vout) := by
  obtain ⟨nVersion, hadmits, hstep⟩ := h.poolStep_eq
  rw [processDsi_of_fits hadmits hfits] at hstep
  refine ⟨_, hstep, ?_⟩
  have hunsigned := not_signaturesComplete_add pool e.ctx.nTime nAmount txCollateral vout
    (checkEntry_ok hadmits.checked).1
  have hquiet : (pool.withEntry (.add e.ctx.nTime vin nAmount txCollateral vout)).Quiet := hq
  obtain ⟨hquiet, hsession | ⟨hcomplete, -⟩⟩ := check_cases e.ctx hquiet
  · refine ⟨hquiet, hsession.trans ?_⟩
    unfold session withEntry PoolSession.enter
    rw [List.map_append, List.map_singleton, shape_add]
  · exact absurd hcomplete hunsigned

end

/-- Every other event moves the session or leaves it alone. -/
theorem poolStep_other (h : ∀ vin nAmount txCollateral vout,
    ¬pool.AsksToEnter e vin nAmount txCollateral vout) (hq : pool.Quiet)
    (hstep : poolStep verifyScript pool e = some pool') : Moved pool pool' := by
  cases hstep
  cases hop : e.op with
  | check => exact moved_check e.ctx hq
  | checkTimeout => exact moved_checkTimeout e.ctx hq
  | checkForCompleteQueue => exact (still_checkForCompleteQueue e.ctx pool).moved hq
  | message m =>
    dsimp only
    unfold processMessage
    by_cases hlite : e.ctx.fLiteMode = true
    · rw [if_pos hlite]
      exact (Still.refl pool).moved hq
    rw [if_neg hlite]
    extract_lets pool₁
    -- the pool is reset first if the masternode has slept
    have h₁ : Moved pool pool₁ ∧ (e.ctx.fSlept = true → pool₁.isSessionReady = false) ∧
        (e.ctx.fSlept = false → pool₁ = pool) := by
      cases hslept : e.ctx.fSlept with
      | true =>
        have heq : pool₁ = pool.setNull e.ctx := if_pos hslept
        rw [heq]
        exact ⟨moved_setNull e.ctx pool, fun _ => rfl, nofun⟩
      | false =>
        have heq : pool₁ = pool := if_neg (by rw [hslept]; exact Bool.false_ne_true)
        rw [heq]
        exact ⟨(Still.refl pool).moved hq, nofun, fun _ => rfl⟩
    obtain ⟨hmoved, hslept, hawake⟩ := h₁
    by_cases hsynced : (!e.ctx.fBlockchainSynced) = true
    · rw [if_pos hsynced]
      exact hmoved
    rw [if_neg hsynced]
    cases m with
    | dsa nVersion nDenom txCollateral =>
      exact hmoved.trans (moved_processDsa e.ctx nVersion nDenom txCollateral hmoved.quiet)
    | dss nVersion sigs =>
      exact hmoved.trans (moved_processDss e.ctx verifyScript nVersion sigs hmoved.quiet)
    | dsi nVersion vin nAmount txCollateral vout =>
      dsimp only
      rw [processDsi_of_not_admits]
      · exact hmoved
      · intro hadmits
        cases hs : e.ctx.fSlept with
        | true => exact Bool.false_ne_true ((hslept hs).symm.trans hadmits.ready)
        | false =>
          rw [hawake hs] at hadmits
          refine h vin nAmount txCollateral vout ⟨nVersion, hop, ⟨?_, hs, ?_⟩, hadmits⟩
          · simpa using hlite
          · simpa using hsynced

theorem Moved.keeps {P : PoolSession → Prop} (hP : ∀ {s s'}, PoolSession.Moves s s' → P s → P s')
    (h : Moved pool pool') (hs : P pool.session) : P pool'.session := by
  obtain ⟨-, hmoves⟩ := h
  generalize pool'.session = s' at hmoves
  induction hmoves with
  | refl => exact hs
  | tail _ hmove ih => exact hP hmove ih

end CStashedsendPool

/-! ### A masternode -/

def payToHash (byte : UInt8) : CScript :=
  [0x76, 0xa9, 0x14] ++ List.replicate 20 byte ++ [0x88, 0xac]

def smallestDenomination (byte : UInt8) : CTxOut := { nValue := 10000100, scriptPubKey := payToHash byte }

def unshuffled (α : Type) : Shuffle α := ⟨fun l => l, List.Perm.refl⟩

def samplePoolCtx : PoolCtx where
  nTime := 0
  nTimeMillis := 0
  isCollateralValid _ := true
  acceptableInputs _ := true
  getTransaction _ := some { nTime := 0, vin := [], vout := List.replicate 3 (smallestDenomination 9) }
  feesTooHigh _ _ := false
  shuffleIn := unshuffled CTxIn
  shuffleOut := unshuffled CTxOut
  acceptToMemoryPool _ := true

end Sphinx
