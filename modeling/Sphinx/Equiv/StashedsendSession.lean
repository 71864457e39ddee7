import Sphinx.Equiv.StashedsendPool
import Sphinx.Util.Run
import Mathlib.Data.List.Flatten

/-!
# Runs of a mixing session

Two properties of the pool of a masternode, for any sequence of messages and checks.

* `unionOfEntries_iff`: no outpoint occurs twice among the inputs exactly if every entry that is taken
  `BringsNewOutpoints`.  `AddEntry` compares whole inputs, with sequence number and script;
* `bookkeeping_iff`: the counters agree exactly if every `dsi` message that reaches `AddEntry` is for the
  session, `SuitsSession`.  If it is refused there, a user less is counted, and nothing compares its outputs
  with the denominations of the session if it is the first;
* `unionOfEntries_lost`, `bookkeeping_lost`: messages that break them.
-/

namespace Sphinx

namespace PoolSession

def outpoints (s : PoolSession) : List COutPoint := s.entries.flatMap Prod.fst

/-- The counters agree, and the entries are for the denominations of the session. -/
structure Balanced (s : PoolSession) : Prop where
  users : s.users = s.collaterals.length
  le : s.users ≤ poolMaxTransactions
  entries : (s.entries.length : Int) ≤ s.users
  denom : ∀ e ∈ s.entries, (getDenominations e.2 : Int) = s.denom

variable {s s' : PoolSession}

theorem Moves.nodup (h : Moves s s') (hs : s.outpoints.Nodup) : s'.outpoints.Nodup := by
  cases h with
  | reset => exact List.nodup_nil
  | expire hsub => exact hs.sublist (hsub.flatMap _)
  | join => exact hs

theorem Moves.balanced (h : Moves s s') (hs : s.Balanced) : s'.Balanced := by
  have husers := hs.users
  have hentries := hs.entries
  cases h with
  | reset => exact ⟨rfl, by decide, le_refl 0, nofun⟩
  | expire hsub =>
    refine ⟨hs.users, hs.le, ?_, fun e he => hs.denom e (hsub.subset he)⟩
    have hlen := hsub.length_le
    dsimp only
    omega
  | join txCollateral hroom hdenom =>
    have hmax : max s.users 0 = s.users := max_eq_left (by omega)
    rw [hmax] at hroom ⊢
    refine ⟨?_, hroom, ?_, ?_⟩
    · dsimp only
      rw [List.length_append, husers]
      rfl
    · dsimp only
      omega
    · intro e he
      -- there are no entries before the first user
      have hpos : 0 < s.entries.length := List.length_pos_of_mem he
      rw [hdenom (by omega)]
      exact hs.denom e he

theorem nodup_enter {outpoints : List COutPoint} {vout : List CTxOut} (hs : s.outpoints.Nodup)
    (hnodup : outpoints.Nodup) :
    (s.enter (outpoints, vout)).outpoints.Nodup ↔ s.outpoints.Disjoint outpoints := by
  unfold PoolSession.outpoints enter
  rw [List.flatMap_append, List.flatMap_singleton, List.nodup_append']
  exact ⟨fun h => h.2.2, fun h => ⟨hs, hnodup, h⟩⟩

theorem balanced_enter {e : List COutPoint × List CTxOut} (hs : s.Balanced)
    (hroom : (s.entries.length : Int) < s.users) :
    (s.enter e).Balanced ↔ (getDenominations e.2 : Int) = s.denom := by
  constructor
  · exact fun h => h.denom e (List.mem_append_right _ List.mem_cons_self)
  · intro h
    refine ⟨hs.users, hs.le, ?_, ?_⟩
    · unfold enter
      dsimp only
      rw [List.length_append]
      exact hroom
    · intro e' he'
      rcases List.mem_append.mp he' with hmem | hmem
      · exact hs.denom e' hmem
      · rw [List.mem_singleton.mp hmem]
        exact h

/-- The collateral of a user that is not counted any more is still there. -/
theorem not_balanced_lose (hs : s.Balanced) : ¬s.lose.Balanced := by
  intro h
  have husers := h.users
  have husers' := hs.users
  unfold lose at husers
  dsimp only at husers
  omega

end PoolSession

namespace CStashedsendPool

/-- No outpoint occurs twice among the inputs, and the final transaction, whenever it is made, has the inputs
and outputs of all entries. -/
structure UnionOfEntries (pool : CStashedsendPool) : Prop where
  nodup : (pool.inputs.map fun s => s.prevout).Nodup
  vin : ∀ ctx, (pool.finalise ctx).finalTransaction.vin.Perm (pool.inputs.map CTxDSIn.toCTxIn)
  vout : ∀ ctx, (pool.finalise ctx).finalTransaction.vout.Perm pool.outputs

/-- An entry that passes the checks has no outpoint that is in the pool already. -/
def BringsNewOutpoints (pool : CStashedsendPool) (e : PoolEvent) : Prop :=
  ∀ vin nAmount txCollateral vout, pool.AsksToEnter e vin nAmount txCollateral vout →
    pool.Fits e.ctx vin nAmount txCollateral →
      ∀ txin ∈ vin, txin.prevout ∉ pool.inputs.map fun s => s.prevout

/-- The counters of the session agree, and the entries are for its denominations. -/
structure Bookkeeping (pool : CStashedsendPool) : Prop where
  users : pool.sessionUsers = pool.vecSessionCollateral.length
  nonneg : 0 ≤ pool.sessionUsers
  le : pool.sessionUsers ≤ poolMaxTransactions
  entries : (pool.entries.length : Int) ≤ pool.sessionUsers
  denom : ∀ e ∈ pool.entries, (getDenominations e.vout : Int) = pool.sessionDenom

/-- An entry that reaches `AddEntry` passes its checks, and is for the denominations of the session. -/
def SuitsSession (pool : CStashedsendPool) (e : PoolEvent) : Prop :=
  ∀ vin nAmount txCollateral vout, pool.AsksToEnter e vin nAmount txCollateral vout →
    pool.Fits e.ctx vin nAmount txCollateral ∧ (getDenominations vout : Int) = pool.sessionDenom

variable {verifyScript : ScriptVerifier} {pool pool' : CStashedsendPool} {e : PoolEvent}
  {vin : List CTxIn} {nAmount : CAmount} {txCollateral : CTransaction} {vout : List CTxOut}

/-! ### Runs -/

/-- What an entry does to the session keeps `S`. -/
def EntryKeeps (S : PoolSession → Prop) (pool : CStashedsendPool) (e : PoolEvent) : Prop :=
  ∀ vin nAmount txCollateral vout, pool.AsksToEnter e vin nAmount txCollateral vout →
    (pool.Fits e.ctx vin nAmount txCollateral →
      S (pool.session.enter (vin.map fun txin => txin.prevout, vout))) ∧
    (¬pool.Fits e.ctx vin nAmount txCollateral → S pool.session.lose)

section

variable {S : PoolSession → Prop} (hmoves : ∀ {s s'}, PoolSession.Moves s s' → S s → S s')

include hmoves

theorem entryKeeps_step (hS : S pool.session) (hq : pool.Quiet) (hkeeps : EntryKeeps S pool e)
    (hstep : poolStep verifyScript pool e = some pool') : pool'.Quiet ∧ S pool'.session := by
  by_cases hask : ∃ vin nAmount txCollateral vout, pool.AsksToEnter e vin nAmount txCollateral vout
  · obtain ⟨vin, nAmount, txCollateral, vout, hask⟩ := hask
    obtain ⟨henter, hlose⟩ := hkeeps vin nAmount txCollateral vout hask
    by_cases hfits : pool.Fits e.ctx vin nAmount txCollateral
    · obtain ⟨pool₁, hstep₁, hquiet, hsession⟩ := poolStep_of_fits hask hfits hq
      obtain rfl := Option.some.inj (hstep₁.symm.trans hstep)
      exact ⟨hquiet, hsession ▸ henter hfits⟩
    · obtain rfl := Option.some.inj ((poolStep_of_not_fits hask hfits).symm.trans hstep)
      exact ⟨hq, hlose hfits⟩
  · have hmoved := poolStep_other (fun vin nAmount txCollateral vout h =>
      hask ⟨vin, nAmount, txCollateral, vout, h⟩) hq hstep
    exact ⟨hmoved.quiet, hmoved.keeps hmoves hS⟩

omit hmoves in
theorem not_entryKeeps_step (verifyScript : ScriptVerifier) (hq : pool.Quiet) (hnot : ¬EntryKeeps S pool e) :
    ∃ pool', poolStep verifyScript pool e = some pool' ∧ ¬S pool'.session := by
  unfold EntryKeeps at hnot
  push Not at hnot
  obtain ⟨vin, nAmount, txCollateral, vout, hask, hlost⟩ := hnot
  by_cases hfits : pool.Fits e.ctx vin nAmount txCollateral
  · obtain ⟨pool', hstep, -, hsession⟩ := poolStep_of_fits hask hfits hq
    refine ⟨pool', hstep, ?_⟩
    rw [hsession]
    exact fun hS => (hlost fun _ => hS).1 hfits
  · refine ⟨_, poolStep_of_not_fits hask hfits, ?_⟩
    exact fun hS => (hlost fun h => absurd h hfits).2 hS

/-- **Runs.** What the other operations keep holds all along a run, if and only if the entries keep it. -/
theorem along_iff_entryKeeps {P : CStashedsendPool → Prop} {Q : CStashedsendPool → PoolEvent → Prop}
    (hP : ∀ pool, P pool ↔ S pool.session)
    (hQ : ∀ {pool e}, S pool.session → (Q pool e ↔ EntryKeeps S pool e))
    (hempty : S .empty) (verifyScript : ScriptVerifier) (ctx : PoolCtx) (es : List PoolEvent) :
    Run.Along (poolStep verifyScript) P es (setNull ctx {}) ↔
      Run.EveryStep (poolStep verifyScript) Q es (setNull ctx {}) := by
  have hinv : ∀ {pool : CStashedsendPool}, pool.Quiet ∧ S pool.session → P pool :=
    fun h => (hP _).mpr h.2
  refine Run.along_iff_everyStep hinv ?_ ?_ es ⟨quiet_setNull, hempty⟩
  · exact fun h hkeeps hstep => entryKeeps_step hmoves h.2 h.1 ((hQ h.2).mp hkeeps) hstep
  · intro pool e h hnot
    have hlost : ¬EntryKeeps S pool e := fun hkeeps => hnot ((hQ h.2).mpr hkeeps)
    obtain ⟨pool', hstep, hlost⟩ := not_entryKeeps_step verifyScript h.1 hlost
    exact ⟨pool', hstep, fun hholds => hlost ((hP _).mp hholds)⟩

end

/-! ### Outpoints -/

theorem outpoints_session (pool : CStashedsendPool) :
    pool.session.outpoints = pool.inputs.map fun s => s.prevout := by
  unfold PoolSession.outpoints session inputs
  rw [List.flatMap_map, List.map_flatMap]
  rfl

theorem unionOfEntries_iff_nodup (pool : CStashedsendPool) :
    pool.UnionOfEntries ↔ pool.session.outpoints.Nodup := by
  rw [outpoints_session]
  constructor
  · exact fun h => h.nodup
  · exact fun h => ⟨h, fun ctx => ctx.shuffleIn.perm _, fun ctx => ctx.shuffleOut.perm _⟩

theorem bringsNewOutpoints_iff (hs : pool.session.outpoints.Nodup) :
    pool.BringsNewOutpoints e ↔ EntryKeeps (fun s => s.outpoints.Nodup) pool e := by
  unfold BringsNewOutpoints EntryKeeps
  refine forall_congr' fun vin => forall_congr' fun nAmount => forall_congr' fun txCollateral =>
    forall_congr' fun vout => forall_congr' fun hask => ?_
  obtain ⟨nVersion, -, -, hadmits⟩ := hask
  dsimp only
  rw [PoolSession.nodup_enter hs (checkEntry_ok hadmits.checked).2, outpoints_session]
  constructor
  · intro hnew
    refine ⟨fun hfits o ho ho' => ?_, fun _ => hs⟩
    obtain ⟨txin, hmem, rfl⟩ := List.mem_map.mp ho'
    exact hnew hfits txin hmem ho
  · exact fun h hfits txin hmem hknown => h.1 hfits hknown (List.mem_map_of_mem hmem)

/-- **The mixing transaction.** It is the union of the entries all along a run, if and only if every entry
brings new outpoints. -/
theorem unionOfEntries_iff (verifyScript : ScriptVerifier) (ctx : PoolCtx) (es : List PoolEvent) :
    Run.Along (poolStep verifyScript) UnionOfEntries es (setNull ctx {}) ↔
      Run.EveryStep (poolStep verifyScript) BringsNewOutpoints es (setNull ctx {}) :=
  along_iff_entryKeeps PoolSession.Moves.nodup unionOfEntries_iff_nodup bringsNewOutpoints_iff
    List.nodup_nil verifyScript ctx es

/-! ### Counters -/

theorem bookkeeping_iff_balanced (pool : CStashedsendPool) : pool.Bookkeeping ↔ pool.session.Balanced := by
  constructor
  · exact fun h => ⟨h.users, h.le, by simpa [session] using h.entries, List.forall_mem_map.mpr h.denom⟩
  · intro h
    have husers : pool.sessionUsers = pool.vecSessionCollateral.length := h.users
    have hentries : ((pool.entries.map CStashedSendEntry.shape).length : Int) ≤ pool.sessionUsers :=
      h.entries
    rw [List.length_map] at hentries
    exact ⟨husers, by omega, h.le, hentries, List.forall_mem_map.mp h.denom⟩

theorem suitsSession_iff (hs : pool.session.Balanced) :
    pool.SuitsSession e ↔ EntryKeeps PoolSession.Balanced pool e := by
  unfold SuitsSession EntryKeeps
  refine forall_congr' fun vin => forall_congr' fun nAmount => forall_congr' fun txCollateral =>
    forall_congr' fun vout => forall_congr' fun hask => ?_
  obtain ⟨nVersion, -, -, hadmits⟩ := hask
  have hlose := PoolSession.not_balanced_lose hs
  by_cases hfits : pool.Fits e.ctx vin nAmount txCollateral
  · have hroom : ((pool.entries.map CStashedSendEntry.shape).length : Int) < pool.sessionUsers := by
      rw [List.length_map]
      exact hfits.room.trans_le (of_decide_eq_true hadmits.ready)
    rw [PoolSession.balanced_enter hs hroom]
    exact ⟨fun h => ⟨fun _ => h.2, fun hnot => absurd hfits hnot⟩, fun h => ⟨hfits, h.1 hfits⟩⟩
  · exact ⟨fun h => absurd h.1 hfits, fun h => absurd (h.2 hfits) hlose⟩

/-- **The bookkeeping.** The counters agree all along a run, if and only if every entry suits the
session. -/
theorem bookkeeping_iff (verifyScript : ScriptVerifier) (ctx : PoolCtx) (es : List PoolEvent) :
    Run.Along (poolStep verifyScript) Bookkeeping es (setNull ctx {}) ↔
      Run.EveryStep (poolStep verifyScript) SuitsSession es (setNull ctx {}) :=
  along_iff_entryKeeps PoolSession.Moves.balanced bookkeeping_iff_balanced suitsSession_iff
    ⟨rfl, by decide, le_refl 0, nofun⟩ verifyScript ctx es

/-! ### Messages that break them -/

def joinEvents : List PoolEvent :=
  List.replicate 3 ⟨samplePoolCtx, .message
      (.dsa minPoolPeerProtoVersion 16 { nTime := 0, vin := [], vout := [] })⟩
    ++ [⟨samplePoolCtx, .checkForCompleteQueue⟩]

def entryEvent (txin : CTxIn) (nAmount : CAmount) (vout : List CTxOut) : PoolEvent :=
  ⟨samplePoolCtx, .message
    (.dsi minPoolPeerProtoVersion [txin] nAmount { nTime := 0, vin := [], vout := [] } vout)⟩

/-- The same outpoint with another sequence number. -/
theorem unionOfEntries_lost : ¬Run.Along (poolStep fun _ _ _ _ _ _ => true) UnionOfEntries
    (joinEvents ++ [entryEvent ⟨⟨5, 0⟩, [], uintMax⟩ 10000100 [smallestDenomination 1],
      entryEvent ⟨⟨5, 0⟩, [], 0⟩ 10000100 [smallestDenomination 2]]) (setNull samplePoolCtx {}) := by
  intro h
  have hnodup := (h.last rfl).nodup
  exact absurd hnodup (by decide)

/-- An entry with a negative amount, and one for a larger denomination. -/
theorem bookkeeping_lost :
    (¬Run.Along (poolStep fun _ _ _ _ _ _ => true) Bookkeeping
      (joinEvents ++ [entryEvent ⟨⟨5, 0⟩, [], uintMax⟩ (-1) [smallestDenomination 1]])
      (setNull samplePoolCtx {})) ∧
    ¬Run.Along (poolStep fun _ _ _ _ _ _ => true) Bookkeeping
      (joinEvents ++ [entryEvent ⟨⟨5, 0⟩, [], uintMax⟩ 100001000
        [{ smallestDenomination 1 with nValue := 100001000 }]]) (setNull samplePoolCtx {}) := by
  constructor
  · intro h
    have husers := (h.last rfl).users
    exact absurd husers (by decide)
  · intro h
    have hdenom := (h.last rfl).denom
    exact absurd hdenom (by decide)

end CStashedsendPool

end Sphinx
