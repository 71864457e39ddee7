import Sphinx.Equiv.SelectCoins
import Sphinx.Equiv.StashedsendPool
import Sphinx.Equiv.WalletCredit
import Sphinx.PrepareDenominate
import Sphinx.Script.Equiv.Sign
import Sphinx.Util.LockRecord
import Sphinx.Util.Loop

/-!
# A mixing entry conserves money, and what its locks are worth

* `Submission.Conserves`: the entry that is submitted has as many outputs as inputs of each value, and no input twice;
* `MixingClient.Accounted base`: the wallet's locked coins are `base` and what the pool has recorded;
* `sendStashedsendDenominate_accounted_iff`, `prepareStashedsendDenominate_accounted`: a call leaves the coins accounted
  for unless `SendStashedsendDenominate` is reached and goes wrong: a call that returns at once leaves the coins of the
  entry locked, and the inputs of the collateral are recorded but never locked.

`CWallet.KeyedByHash`: a transaction is in `mapWallet` under its hash.
-/

namespace Sphinx

open LockRecord

/-! ### The locked coins -/

namespace CWallet

variable {env : Env} {ctx : CreditCtx} {w : CWallet}
variable {out : COutput} {seen : List COutput}

/-- The transactions are found under their hashes. -/
def KeyedByHash (env : Env) (w : CWallet) : Prop :=
  ∀ {hash wtx}, w.mapWallet.lookup hash = some wtx → env.getHash wtx.tx = hash

theorem mem_foldl_lockCoin (vCoins : List CTxDSIn) (w : CWallet) (o : COutPoint) :
    o ∈ (vCoins.foldl (fun w v => w.lockCoin v.prevout) w).setLockedCoins ↔
      o ∈ w.setLockedCoins ∨ o ∈ vCoins.map fun v => v.prevout := by
  induction vCoins generalizing w with
  | nil => exact (or_iff_left List.not_mem_nil).symm
  | cons v vCoins ih =>
    have hlock : o ∈ (w.lockCoin v.prevout).setLockedCoins ↔ o = v.prevout ∨ o ∈ w.setLockedCoins := by
      unfold lockCoin
      dsimp only
      split_ifs with hin
      · exact (or_iff_right_of_imp fun heq => heq ▸ hin).symm
      · exact List.mem_cons
    rw [List.foldl_cons, ih, hlock, List.map_cons, List.mem_cons, or_comm (a := o = v.prevout), or_assoc]

theorem mem_foldl_unlockCoin (vCoins : List CTxDSIn) (w : CWallet) (o : COutPoint) :
    o ∈ (vCoins.foldl (fun w v => w.unlockCoin v.prevout) w).setLockedCoins ↔
      o ∈ w.setLockedCoins ∧ o ∉ vCoins.map fun v => v.prevout := by
  induction vCoins generalizing w with
  | nil => exact (and_iff_left List.not_mem_nil).symm
  | cons v vCoins ih =>
    have hunlock : o ∈ (w.unlockCoin v.prevout).setLockedCoins ↔ o ∈ w.setLockedCoins ∧ o ≠ v.prevout := by
      rw [unlockCoin, List.mem_filter, decide_eq_true_eq]
    rw [List.foldl_cons, ih, hunlock, List.map_cons, List.mem_cons, not_or, and_assoc]

/-! ### The coins that are offered -/

theorem availableCoins_spec {request : CoinRequest} (h : out ∈ w.availableCoins env ctx request) :
    (∃ wtx, w.mapWallet.lookup out.hash = some wtx) ∧ (⟨out.hash, out.i⟩ : COutPoint) ∉ w.setLockedCoins := by
  rw [availableCoins, List.mem_flatMap] at h
  obtain ⟨e, he, hout⟩ := h
  unfold coinsOf at hout
  split_ifs at hout
  · cases hout
  · obtain ⟨a, ha, rfl⟩ := List.mem_map.mp hout
    refine ⟨⟨e.2, AList.mem_lookup_iff.mpr he⟩, ?_⟩
    have hoffer := (List.mem_filter.mp ha).2
    simp only [offersOutput, isLockedCoin, Bool.and_eq_true, Bool.not_eq_true', decide_eq_false_iff_not] at hoffer
    exact hoffer.1.1.2

theorem prevout_denominatedInput (hkeys : w.KeyedByHash env) {wtx : CWalletTx}
    (h : w.mapWallet.lookup out.hash = some wtx) :
    (w.denominatedInput env out).prevout = ⟨out.hash, out.i⟩ := by
  rw [denominatedInput, coinTx, h, Option.getD_some, hkeys h]

theorem coinValue_denominatedInput (hkeys : w.KeyedByHash env) {wtx : CWalletTx}
    (h : w.mapWallet.lookup out.hash = some wtx) :
    w.coinValue (w.denominatedInput env out).prevout = (w.coinTxOut out).nValue := by
  rw [prevout_denominatedInput hkeys h, coinValue, coinTxOut]
  cases w.output ⟨out.hash, out.i⟩ with
  | none => rfl
  | some txout => rfl

/-! ### The chosen coins -/

section Choose

variable {request : DenomRequest} {random : PrepareRandom}

/-- Both vectors belong to the same coins, which were seen one after the other. -/
structure DenomScan.Holds (env : Env) (w : CWallet) (seen : List COutput) (s : DenomScan) : Prop where
  inputs : s.vCoinsRet = s.vCoinsRet2.map (w.denominatedInput env)
  sublist : s.vCoinsRet2.Sublist seen
  value : s.nValueRet = (s.vCoinsRet2.map fun out => (w.coinTxOut out).nValue).sum

theorem DenomScan.Holds.skip {s : DenomScan} (h : DenomScan.Holds env w seen s) (rest : List COutput) :
    DenomScan.Holds env w (seen ++ rest) s :=
  ⟨h.inputs, h.sublist.trans (List.sublist_append_left seen rest), h.value⟩

theorem DenomScan.Holds.accept {s : DenomScan} (h : DenomScan.Holds env w seen s) (out : COutput) :
    DenomScan.Holds env w (seen ++ [out]) (w.acceptDenominated env request s out) := by
  unfold acceptDenominated
  dsimp only
  cases acceptedDenomination request.nDenom (w.coinTxOut out).nValue with
  | none => exact h.skip [out]
  | some c =>
    refine ⟨?_, h.sublist.append (List.Sublist.refl [out]), ?_⟩
    · rw [List.map_append, ← h.inputs]
      rfl
    · rw [List.map_append, List.sum_append, ← h.value, List.map_singleton, List.sum_singleton]

/-- A round, whichever way it ends. -/
theorem considerDenominated_holds {nCoins : Nat} {s : DenomScan} (e : COutput × Nat)
    (h : DenomScan.Holds env w seen s) :
    (∀ s', w.considerDenominated env ctx request random nCoins s e = .ok s' →
      DenomScan.Holds env w (seen ++ [e.1]) s') ∧
    ∀ s', w.considerDenominated env ctx request random nCoins s e = .error s' → DenomScan.Holds env w seen s' := by
  unfold considerDenominated
  dsimp only
  have hreduced (nValueMax : CAmount) : DenomScan.Holds env w seen { s with nValueMax := nValueMax } :=
    ⟨h.inputs, h.sublist, h.value⟩
  split_ifs
  · exact ⟨fun s' hs' => Except.ok.inj hs' ▸ h.skip [e.1], fun s' hs' => nomatch hs'⟩
  · exact ⟨fun s' hs' => Except.ok.inj hs' ▸ h.skip [e.1], fun s' hs' => nomatch hs'⟩
  · exact ⟨fun s' hs' => (nomatch hs'), fun s' hs' => Except.error.inj hs' ▸ hreduced _⟩
  · exact ⟨fun s' hs' => Except.ok.inj hs' ▸ (hreduced _).accept e.1, fun s' hs' => nomatch hs'⟩
  · exact ⟨fun s' hs' => Except.ok.inj hs' ▸ h.accept e.1, fun s' hs' => nomatch hs'⟩

theorem selectCoinsByDenominations_holds :
    DenomScan.Holds env w (random.shuffleCoins.shuffle (w.availableCoins env ctx { coinType := .onlyDenominated }))
      (w.selectCoinsByDenominations env ctx request random).2 := by
  unfold selectCoinsByDenominations
  dsimp only
  generalize random.shuffleCoins.shuffle (w.availableCoins env ctx { coinType := .onlyDenominated }) = vCoins
  have hfst : vCoins.zipIdx.map Prod.fst = vCoins := List.zipIdx_map_fst 0 vCoins
  generalize stashedSendDenominations.zipIdx.map (fun e => !request.nDenom.testBit e.2) = fFound
  have hstart : DenomScan.Holds env w [] { nValueMax := request.nValueMax, fFound := fFound } :=
    ⟨rfl, List.Sublist.refl [], rfl⟩
  have hround : ∀ (done : List (COutput × Nat)) (e : COutput × Nat) (rest : List (COutput × Nat))
      (s s' : DenomScan),
      vCoins.zipIdx = done ++ e :: rest → DenomScan.Holds env w (done.map Prod.fst) s →
      w.considerDenominated env ctx request random vCoins.length s e = .ok s' →
      DenomScan.Holds env w ((done ++ [e]).map Prod.fst) s' := by
    intro done e _ s s' _ hs hround
    rw [List.map_append]
    exact (considerDenominated_holds e hs).1 s' hround
  cases hrun : vCoins.zipIdx.foldlM (w.considerDenominated env ctx request random vCoins.length)
      { nValueMax := request.nValueMax, fFound := fFound } with
  | ok s =>
    have hs := Loop.foldlM_inv (fun done s => DenomScan.Holds env w (done.map Prod.fst) s) hrun hstart hround
    rwa [hfst] at hs
  -- a round that ends the loop leaves out the coins behind it
  | error s =>
    obtain ⟨done, e, rest, s', hsplit, hs', hstop⟩ :=
      Loop.foldlM_error (fun done s => DenomScan.Holds env w (done.map Prod.fst) s) hrun hstart hround
    have hs := ((considerDenominated_holds e hs').2 s hstop).skip ((e :: rest).map Prod.fst)
    rwa [← List.map_append, ← hsplit, hfst] at hs

end Choose

end CWallet

namespace MixingSender

variable {env : Env} {ctx : PrepareCtx} {sctx : SubmitCtx} {w : CWallet} {random : PrepareRandom}
  {sender : MixingSender}

/-- The inputs that are chosen: they are different and not locked, and their values add up. -/
structure Chosen (env : Env) (w : CWallet) (sender : MixingSender) (coins : List COutput) (nValueIn : CAmount) :
    Prop where
  nodup : (coins.map fun out => (w.denominatedInput env out).prevout).Nodup
  unlocked : ∀ out ∈ coins, (w.denominatedInput env out).prevout ∉ sender.setLockedCoins
  coinValue : ∀ out ∈ coins, w.coinValue (w.denominatedInput env out).prevout = (w.coinTxOut out).nValue
  value : nValueIn = (coins.map fun out => (w.coinTxOut out).nValue).sum

theorem chooseInputs_chosen (hkeys : w.KeyedByHash env) (minRounds maxRounds : Int) :
    (sender.chooseInputs env ctx w random minRounds maxRounds).2.vCoinsRet =
      (sender.chooseInputs env ctx w random minRounds maxRounds).2.vCoinsRet2.map (w.denominatedInput env) ∧
    Chosen env w sender (sender.chooseInputs env ctx w random minRounds maxRounds).2.vCoinsRet2
      (sender.chooseInputs env ctx w random minRounds maxRounds).2.nValueRet := by
  unfold chooseInputs
  split_ifs
  · generalize hrequest : CWallet.DenomRequest.mk _ _ _ _ _ = request
    have hchosen := @CWallet.selectCoinsByDenominations_holds env ctx.toCreditCtx (sender.wallet w) request random
    generalize (sender.wallet w).selectCoinsByDenominations env ctx.toCreditCtx request random = r at hchosen ⊢
    -- the coins are some of the available ones, in a random order
    have hperm := random.shuffleCoins.perm
      ((sender.wallet w).availableCoins env ctx.toCreditCtx { coinType := .onlyDenominated })
    have hcoin (out : COutput) (hout : out ∈ r.2.vCoinsRet2) := CWallet.availableCoins_spec
      (hperm.mem_iff.mp (hchosen.sublist.mem hout))
    have hprevout (out : COutput) (hout : out ∈ r.2.vCoinsRet2) :
        (w.denominatedInput env out).prevout = ⟨out.hash, out.i⟩ := by
      obtain ⟨⟨wtx, hwtx⟩, -⟩ := hcoin out hout
      exact CWallet.prevout_denominatedInput hkeys hwtx
    refine ⟨hchosen.inputs, ?_, ?_, ?_, hchosen.value⟩
    · rw [List.map_congr_left hprevout]
      have hnodup := (hperm.map fun out => (⟨out.hash, out.i⟩ : COutPoint)).nodup_iff.mpr
        (CWallet.availableCoins_nodup _)
      exact hnodup.sublist (hchosen.sublist.map _)
    · intro out hout
      rw [hprevout out hout]
      exact (hcoin out hout).2
    · intro out hout
      obtain ⟨⟨wtx, hwtx⟩, -⟩ := hcoin out hout
      exact CWallet.coinValue_denominatedInput hkeys hwtx
  · exact ⟨rfl, List.nodup_nil, fun _ h => absurd h List.not_mem_nil, fun _ h => absurd h List.not_mem_nil, rfl⟩

/-! ### The outputs -/

theorem takeCoin_eq_some {v : CAmount} : ∀ {coins : List COutput} {r : CTxDSIn × List CTxDSIn × List COutput},
    takeCoin w v (coins.map (w.denominatedInput env)) coins = some r →
    ∃ out rest, (w.coinTxOut out).nValue = v ∧ coins.Perm (out :: rest) ∧
      r = (w.denominatedInput env out, rest.map (w.denominatedInput env), rest) := by
  intro coins
  induction coins with
  | nil => exact fun h => nomatch h
  | cons first coins ih =>
    intro r h
    rw [List.map_cons, takeCoin] at h
    split_ifs at h with hvalue
    · exact ⟨first, coins, hvalue, List.Perm.refl _, (Option.some.inj h).symm⟩
    · obtain ⟨r', hr', rfl⟩ := Option.map_eq_some_iff.mp h
      obtain ⟨out, rest, hout, hperm, rfl⟩ := ih hr'
      exact ⟨out, first :: rest, hout, (hperm.cons first).trans (List.Perm.swap out first rest), rfl⟩

/-- The coins are used or left, and there is an output for each that is used. -/
structure Uses (env : Env) (w : CWallet) (coins used : List COutput) (s : OutputScan) : Prop where
  vCoins : s.vCoins = s.vCoins2.map (w.denominatedInput env)
  perm : (used ++ s.vCoins2).Perm coins
  vCoinsResult : s.vCoinsResult = used.map (w.denominatedInput env)
  vOut : s.vOut.map CTxOut.nValue = used.map fun out => (w.coinTxOut out).nValue
  nValueLeft : s.nValueLeft = (s.vCoins2.map fun out => (w.coinTxOut out).nValue).sum

theorem addDenomination_uses {coins : List COutput} {s s' : OutputScan} {v : CAmount}
    (huses : ∃ used, Uses env w coins used s) (h : addDenomination ctx w random sender s v = some s') :
    ∃ used, Uses env w coins used s' := by
  obtain ⟨used, huses⟩ := huses
  unfold addDenomination at h
  split_ifs at h
  · exact ⟨used, Option.some.inj h ▸ huses⟩
  rw [huses.vCoins] at h
  cases htake : takeCoin w v (s.vCoins2.map (w.denominatedInput env)) s.vCoins2 with
  | none =>
    rw [htake] at h
    exact ⟨used, Option.some.inj h ▸ huses⟩
  | some r =>
    -- the coin and its input are taken out of both lists together
    obtain ⟨out, rest, hvalue, hperm, rfl⟩ := takeCoin_eq_some htake
    rw [htake] at h
    obtain ⟨vchPubKey, -, rfl⟩ := Option.map_eq_some_iff.mp h
    refine ⟨used ++ [out], rfl, ?_, ?_, ?_, ?_⟩
    · rw [List.append_assoc]
      exact (hperm.symm.append_left used).trans huses.perm
    · rw [huses.vCoinsResult, List.map_append]
      rfl
    · rw [List.map_append, List.map_append, huses.vOut, List.map_singleton, List.map_singleton, hvalue]
    · rw [huses.nValueLeft, (hperm.map fun out => (w.coinTxOut out).nValue).sum_eq, List.map_cons, List.sum_cons,
        hvalue]
      exact add_sub_cancel_left v _

theorem addOutputs_uses {coins : List COutput} : ∀ {n : Nat} {s s' : OutputScan},
    (∃ used, Uses env w coins used s) → addOutputs ctx w random sender n s = some s' →
    ∃ used, Uses env w coins used s' := by
  intro n
  induction n with
  | zero => exact fun huses h => Option.some.inj h ▸ huses
  | succ n ih =>
    intro s s' huses h
    rw [addOutputs, Option.bind_eq_some_iff] at h
    obtain ⟨s1, hround, hrest⟩ := h
    have huses1 : ∃ used, Uses env w coins used s1 :=
      Run.inv_of_foldlM _ (fun _ huses h => addDenomination_uses huses h) huses hround
    split_ifs at hrest
    · exact Option.some.inj hrest ▸ huses1
    · exact ih huses1 hrest

/-! ### Sending -/

/-- The locked coins are those of `base` and those that are recorded. -/
def Accounted (base : Set COutPoint) (sender : MixingSender) : Prop :=
  LockRecord.Accounted base sender.setLockedCoins (sender.lockedCoins.map CTxIn.prevout)

/-- Besides, the inputs of an entry are locked and not recorded. -/
def LockedFor (base : Set COutPoint) (vin : List CTxDSIn) (sender : MixingSender) : Prop :=
  LockRecord.AccountedWith base sender.setLockedCoins (sender.lockedCoins.map CTxIn.prevout)
    (vin.map fun v => v.prevout)

/-- When `SendStashedsendDenominate` leaves the coins accounted for: if it returns at once, there is nothing to record;
if it stores the entry, the inputs of the collateral are locked already; otherwise they are not
locked by anyone else. -/
def KeepsAccount (ctx : SubmitCtx) (base : Set COutPoint) (vin : List CTxDSIn) (sender : MixingSender) : Prop :=
  if sender.fMasterNode = true ∨ sender.txCollateral = ctx.newTransaction then vin = []
  else if sender.sessionFoundMasternode = true ∧ ctx.fDiskSpace = true ∧
      ctx.acceptableInputs sender.txCollateral = true then
    ∀ o ∈ sender.txCollateral.prevouts,
      o ∈ sender.lockedCoins.map CTxIn.prevout ∨ o ∈ vin.map fun v => v.prevout
  else ∀ o ∈ sender.txCollateral.prevouts, o ∉ base

variable {base : Set COutPoint} {vin : List CTxDSIn}

theorem Accounted.unlockCoins (h : sender.Accounted base) (o : COutPoint) :
    o ∈ sender.unlockCoins.setLockedCoins ↔ o ∈ base := by
  rw [MixingClient.unlockCoins, List.mem_filter, decide_eq_true_eq]
  exact LockRecord.Accounted.mem_base_iff h o

theorem map_prevout_recordCoins :
    (sender.recordCoins vin).lockedCoins.map CTxIn.prevout =
      sender.lockedCoins.map CTxIn.prevout ++ sender.txCollateral.prevouts ++ vin.map fun v => v.prevout := by
  rw [recordCoins, List.map_append, List.map_append, List.map_map]
  rfl

/-- The returns that unlock everything recorded. -/
theorem accounted_abandon_iff (h : sender.LockedFor base vin) {recorded : MixingSender}
    (hlocked : recorded.setLockedCoins = sender.setLockedCoins)
    (hrecord : recorded.lockedCoins = (sender.recordCoins vin).lockedCoins) :
    (recorded.abandon sctx).Accounted base ↔ ∀ o ∈ sender.txCollateral.prevouts, o ∉ base := by
  refine LockRecord.AccountedWith.release_iff h fun o => ?_
  rw [← map_prevout_recordCoins, ← hrecord, ← hlocked]
  exact List.mem_filter.trans (and_congr_right fun _ => decide_eq_true_iff)

theorem check_acceptingEntries {ctx : PoolCtx} {client : MixingClient} (h : client.state = .acceptingEntries) :
    client.check ctx = client := by
  unfold MixingClient.check
  simp only [h, reduceCtorEq, if_false, or_self, false_and]

theorem sendStashedsendDenominate_accounted_iff (h : sender.LockedFor base vin) (vout : List CTxOut)
    (amount : CAmount) :
    (sender.sendStashedsendDenominate sctx vin vout amount).1.Accounted base ↔ sender.KeepsAccount sctx base vin := by
  have hkept : sender.Accounted base ↔ vin = [] :=
    (LockRecord.AccountedWith.kept_iff h).trans List.map_eq_nil_iff
  unfold sendStashedsendDenominate KeepsAccount
  by_cases hmaster : sender.fMasterNode = true
  · rw [if_pos hmaster, if_pos (.inl hmaster)]
    exact hkept
  rw [if_neg hmaster]
  by_cases hunset : sender.txCollateral = sctx.newTransaction
  · rw [if_pos hunset, if_pos (.inr hunset)]
    exact hkept
  rw [if_neg hunset, if_neg (not_or.mpr ⟨hmaster, hunset⟩)]
  dsimp only
  by_cases hfound : sender.sessionFoundMasternode = true
  · have hfound' : (sender.recordCoins vin).sessionFoundMasternode = true := hfound
    rw [hfound', Bool.not_true, if_neg Bool.false_ne_true]
    cases hdisk : sctx.fDiskSpace with
    | false =>
      rw [Bool.not_false, if_pos rfl, if_neg fun hall => Bool.false_ne_true hall.2.1]
      exact accounted_abandon_iff h rfl rfl
    | true =>
      rw [Bool.not_true, if_neg Bool.false_ne_true]
      have hcollateral : (sender.recordCoins vin).txCollateral = sender.txCollateral := rfl
      rw [hcollateral]
      cases hvalid : sctx.acceptableInputs sender.txCollateral with
      | false =>
        rw [Bool.not_false, if_pos rfl, if_neg fun hall => Bool.false_ne_true hall.2.2]
        exact accounted_abandon_iff h rfl rfl
      | true =>
        rw [Bool.not_true, if_neg Bool.false_ne_true, if_pos ⟨hfound, rfl, rfl⟩, check_acceptingEntries rfl]
        unfold Accounted
        dsimp only [MixingClient.updateState]
        rw [map_prevout_recordCoins]
        exact LockRecord.AccountedWith.record_iff h
  · -- what has been recorded is unlocked again
    have hlost : (sender.recordCoins vin).sessionFoundMasternode = false := Bool.eq_false_iff.mpr hfound
    rw [hlost, Bool.not_false, if_pos rfl, if_neg fun hall => hfound hall.1]
    exact accounted_abandon_iff h rfl rfl

/-! ### Preparing -/

/-- As many outputs as inputs of each value, equal totals, and no input twice. -/
structure Conserves (w : CWallet) (entry : Submission) : Prop where
  denominations : ∀ v, (entry.vin.map fun txin => w.coinValue txin.prevout).count v =
    (entry.vout.map CTxOut.nValue).count v
  totals : (entry.vin.map fun txin => w.coinValue txin.prevout).sum = (entry.vout.map CTxOut.nValue).sum
  amount : entry.amount = (entry.vout.map CTxOut.nValue).sum
  distinct : (entry.vin.map fun txin => txin.prevout).Nodup

section Prepare

variable {coins used : List COutput} {nValueIn : CAmount} {s : OutputScan}

theorem conserves_of_uses (hchosen : Chosen env w sender coins nValueIn) (huses : Uses env w coins used s)
    (shuffle : Shuffle CTxOut) :
    Conserves w ⟨s.vCoinsResult, shuffle.shuffle s.vOut, nValueIn - s.nValueLeft⟩ := by
  have hmem : ∀ out ∈ used, out ∈ coins := fun out hout =>
    huses.perm.mem_iff.mp (List.mem_append_left _ hout)
  have hvin : s.vCoinsResult.map (fun txin => w.coinValue txin.prevout) = s.vOut.map CTxOut.nValue := by
    rw [huses.vCoinsResult, huses.vOut, List.map_map]
    exact List.map_congr_left fun out hout => hchosen.coinValue out (hmem out hout)
  have hperm : ((shuffle.shuffle s.vOut).map CTxOut.nValue).Perm (s.vOut.map CTxOut.nValue) :=
    (shuffle.perm s.vOut).map CTxOut.nValue
  refine ⟨fun v => ?_, ?_, ?_, ?_⟩
  · rw [hvin]
    exact (hperm.count_eq v).symm
  · rw [hvin]
    exact hperm.sum_eq.symm
  · have hsum := (huses.perm.map fun out => (w.coinTxOut out).nValue).sum_eq
    rw [List.map_append, List.sum_append] at hsum
    rw [hperm.sum_eq, huses.vOut, hchosen.value, huses.nValueLeft, ← hsum]
    exact add_sub_cancel_right _ _
  · have hnodup := (huses.perm.map fun out => (w.denominatedInput env out).prevout).nodup_iff.mpr hchosen.nodup
    rw [List.map_append] at hnodup
    rw [huses.vCoinsResult, List.map_map]
    exact hnodup.of_append_left

/-- What is locked when the coins that are not used are unlocked again. -/
theorem mem_lockInputs_unlockInputs (hchosen : Chosen env w sender coins nValueIn)
    (huses : Uses env w coins used s) (o : COutPoint) :
    o ∈ ((sender.lockInputs w (coins.map (w.denominatedInput env))).unlockInputs w s.vCoins).setLockedCoins ↔
      o ∈ sender.setLockedCoins ∨ o ∈ s.vCoinsResult.map fun v => v.prevout := by
  rw [unlockInputs, CWallet.mem_foldl_unlockCoin]
  change o ∈ (sender.lockInputs w (coins.map (w.denominatedInput env))).setLockedCoins ∧ _ ↔ _
  rw [lockInputs, CWallet.mem_foldl_lockCoin, List.map_map, huses.vCoins, huses.vCoinsResult, List.map_map,
    List.map_map]
  have hperm := huses.perm.map fun out => (w.denominatedInput env out).prevout
  have hdisjoint := List.disjoint_of_nodup_append (List.map_append ▸ hperm.nodup_iff.mpr hchosen.nodup)
  have hmem : o ∈ coins.map (fun out => (w.denominatedInput env out).prevout) ↔
      o ∈ used.map (fun out => (w.denominatedInput env out).prevout) ∨
        o ∈ s.vCoins2.map fun out => (w.denominatedInput env out).prevout := by
    rw [← hperm.mem_iff, List.map_append, List.mem_append]
  constructor
  · rintro ⟨hold | hcoin, hunused⟩
    · exact .inl hold
    · exact .inr ((hmem.mp hcoin).resolve_right hunused)
  · rintro (hold | hused)
    · refine ⟨.inl hold, fun hrest => ?_⟩
      obtain ⟨out, hout, rfl⟩ := List.mem_map.mp hrest
      exact hchosen.unlocked out (huses.perm.mem_iff.mp (List.mem_append_right _ hout)) hold
    · exact ⟨.inr (hmem.mpr (.inl hused)), hdisjoint hused⟩

theorem prepareCoins_accounted {r : PrepareResult} (hchosen : Chosen env w sender coins nValueIn)
    (hacc : sender.Accounted base)
    (h : sender.prepareCoins ctx sctx w random (coins.map (w.denominatedInput env)) coins nValueIn = some r) :
    (∀ entry ∈ r.submitted, Conserves w entry) ∧
      (r.sender.Accounted base ↔ ∀ entry ∈ r.submitted, sender.KeepsAccount sctx base entry.vin) := by
  obtain ⟨s, hs, rfl⟩ := Option.map_eq_some_iff.mp h
  have hstart : Uses env w coins []
      { vCoins := coins.map (w.denominatedInput env), vCoins2 := coins, nValueLeft := nValueIn } :=
    ⟨rfl, List.Perm.refl coins, rfl, rfl, hchosen.value⟩
  obtain ⟨used, huses⟩ := addOutputs_uses ⟨[], hstart⟩ hs
  have hmem := mem_lockInputs_unlockInputs hchosen huses
  have hfresh : ∀ o ∈ s.vCoinsResult.map fun v => v.prevout, o ∉ sender.setLockedCoins := by
    intro o ho
    rw [huses.vCoinsResult, List.map_map] at ho
    obtain ⟨out, hout, rfl⟩ := List.mem_map.mp ho
    exact hchosen.unlocked out (huses.perm.mem_iff.mp (List.mem_append_left _ hout))
  dsimp only
  split_ifs with hdenom
  · -- the coins of the entry are unlocked again
    refine ⟨fun _ hentry => (nomatch hentry), iff_of_true ?_ fun _ hentry => (nomatch hentry)⟩
    refine ⟨fun o => ?_, LockRecord.Accounted.recorded_apart hacc⟩
    have hback : o ∈ (((sender.lockInputs w (coins.map (w.denominatedInput env))).unlockInputs w
        s.vCoins).unlockInputs w s.vCoinsResult).setLockedCoins ↔ o ∈ sender.setLockedCoins := by
      rw [unlockInputs, CWallet.mem_foldl_unlockCoin]
      change o ∈ ((sender.lockInputs w (coins.map (w.denominatedInput env))).unlockInputs w
        s.vCoins).setLockedCoins ∧ _ ↔ _
      rw [hmem o]
      exact ⟨fun ho => ho.1.resolve_right ho.2, fun ho => ⟨.inl ho, fun hused => hfresh o hused ho⟩⟩
    exact hback.trans (LockRecord.Accounted.mem_held hacc o)
  · have hlocked : ((sender.lockInputs w (coins.map (w.denominatedInput env))).unlockInputs w s.vCoins).LockedFor base
        s.vCoinsResult := LockRecord.Accounted.lock hacc hfresh hmem
    have hsent := @sendStashedsendDenominate_accounted_iff sctx _ base _ hlocked
      (random.shuffleOut.shuffle s.vOut) (nValueIn - s.nValueLeft)
    refine ⟨fun entry hentry => ?_, hsent.trans ?_⟩
    · obtain rfl := Option.some.inj hentry
      exact conserves_of_uses hchosen huses random.shuffleOut
    · exact ⟨fun hkeeps entry hentry => Option.some.inj hentry ▸ hkeeps, fun hkeeps => hkeeps _ rfl⟩

end Prepare

/-- Both functions leave the coins accounted for exactly where `SendStashedsendDenominate` keeps the account, and the
entry conserves money. -/
theorem prepareStashedsendDenominate_accounted_iff {minRounds maxRounds : Int} {r : PrepareResult}
    (hkeys : w.KeyedByHash env) (hacc : sender.Accounted base)
    (h : sender.prepareStashedsendDenominate env ctx sctx w random minRounds maxRounds = some r) :
    (∀ (sender : MixingSender) (vin : List CTxDSIn) (vout : List CTxOut) (amount : CAmount),
        sender.LockedFor base vin →
        ((sender.sendStashedsendDenominate sctx vin vout amount).1.Accounted base ↔
          sender.KeepsAccount sctx base vin)) ∧
      (∀ entry ∈ r.submitted, Conserves w entry) ∧
      (r.sender.Accounted base ↔ ∀ entry ∈ r.submitted, sender.KeepsAccount sctx base entry.vin) ∧
      (r.sender.Accounted base → ∀ o, o ∈ r.sender.unlockCoins.setLockedCoins ↔ o ∈ base) := by
  have hreturned (strError : String) (hr : some (PrepareResult.mk strError sender none none) = some r) :
      (∀ entry ∈ r.submitted, Conserves w entry) ∧
        (r.sender.Accounted base ↔ ∀ entry ∈ r.submitted, sender.KeepsAccount sctx base entry.vin) := by
    obtain rfl := Option.some.inj hr
    exact ⟨fun _ hentry => (nomatch hentry), iff_of_true hacc fun _ hentry => (nomatch hentry)⟩
  refine ⟨fun _ _ vout amount hlocked => sendStashedsendDenominate_accounted_iff hlocked vout amount, ?_⟩
  rw [← and_assoc]
  refine ⟨?_, fun hr => hr.unlockCoins⟩
  unfold prepareStashedsendDenominate at h
  dsimp only at h
  split_ifs at h
  · exact hreturned _ h
  · exact hreturned _ h
  · exact hreturned _ h
  · obtain ⟨hinputs, hchosen⟩ := chooseInputs_chosen hkeys minRounds maxRounds
    rw [hinputs] at h
    exact prepareCoins_accounted hchosen hacc h

/-! ### Samples -/

def prepareCtx : PrepareCtx where
  toCreditCtx := CreditState.creditCtx
  crypto := onlyCrypto

def submitCtx : SubmitCtx where
  toPoolCtx := samplePoolCtx
  nAdjustedTime := 9

/-- Output 0 of transaction 3 is a coin of 0.1 SPHX. -/
def denominatedWallet : CWallet where
  mapWallet := AList.insert 3
    { tx :=
        { nTime := 3, vin := [{ prevout := ⟨1, 0⟩ }], vout := [{ nValue := 10000100, scriptPubKey := [] }] } } ∅

def prepareRandom : PrepareRandom where
  shuffleCoins := unshuffled COutput
  rand _ := (0, 0)
  getRandInt := 0
  reservedKey _ := some onlyPubKey
  shuffleOut := unshuffled CTxOut

/-- The session is for coins of 0.1 SPHX, and the collateral spends output 0 of transaction 5. -/
def sessionSender : MixingSender where
  sessionDenom := 16
  sessionFoundMasternode := true
  txCollateral := { nTime := 8, vin := [{ prevout := ⟨5, 0⟩ }], vout := [] }

def lockedSender : MixingSender :=
  { sessionSender with setLockedCoins := [⟨5, 0⟩], lockedCoins := [{ prevout := ⟨5, 0⟩ }] }

def unsetSender : MixingSender := { sessionSender with txCollateral := submitCtx.newTransaction }

theorem keyedByHash_denominatedWallet : denominatedWallet.KeyedByHash CWallet.timeEnv := by
  intro hash wtx h
  rw [denominatedWallet, MapLoop.lookup_insert_ite] at h
  split_ifs at h with hhash
  · obtain rfl := Option.some.inj h
    exact hhash.symm
  · cases h

/-- A run, by the coins that are locked and recorded after it. -/
theorem exists_run (run : Option PrepareResult) (locked recorded : List COutPoint)
    (h : (run.map fun r => (r.sender.setLockedCoins, r.sender.lockedCoins.map CTxIn.prevout)) =
      some (locked, recorded)) :
    ∃ r, run = some r ∧ r.sender.setLockedCoins = locked ∧ r.sender.lockedCoins.map CTxIn.prevout = recorded := by
  obtain ⟨r, hr, hvalues⟩ := Option.map_eq_some_iff.mp h
  exact ⟨r, hr, Prod.mk.inj hvalues⟩

theorem prepareStashedsendDenominate_accounted_iff_sample :
    ∃ r, lockedSender.prepareStashedsendDenominate CWallet.timeEnv prepareCtx submitCtx denominatedWallet
        prepareRandom 0 1 = some r ∧ r.sender.Accounted ∅ := by
  have hok : ((lockedSender.prepareStashedsendDenominate CWallet.timeEnv prepareCtx submitCtx denominatedWallet
      prepareRandom 0 1).map fun r => r.submitted.isSome) = some true := by decide
  obtain ⟨r, hr, -⟩ := Option.map_eq_some_iff.mp hok
  have hacc : lockedSender.Accounted ∅ :=
    ⟨fun _ => (or_iff_right (Set.notMem_empty _)).symm, fun _ _ => Set.notMem_empty _⟩
  refine ⟨r, hr, (prepareStashedsendDenominate_accounted_iff keyedByHash_denominatedWallet hacc
    hr).2.2.1.mpr fun entry _ => ?_⟩
  rw [KeepsAccount, if_neg (by decide), if_pos ⟨rfl, rfl, rfl⟩]
  exact fun o ho => .inl ho

/-- An entry is submitted: its coin is locked, the input of the collateral is only recorded.  Without a collateral the
coin stays locked and is not recorded. -/
theorem prepareStashedsendDenominate_unaccounted :
    (∃ r, sessionSender.prepareStashedsendDenominate CWallet.timeEnv prepareCtx submitCtx denominatedWallet
        prepareRandom 0 1 = some r ∧ r.sender.setLockedCoins = [⟨3, 0⟩] ∧
      r.sender.lockedCoins.map CTxIn.prevout = [⟨5, 0⟩, ⟨3, 0⟩] ∧ ¬ r.sender.Accounted ∅) ∧
    ∃ r, unsetSender.prepareStashedsendDenominate CWallet.timeEnv prepareCtx submitCtx denominatedWallet
        prepareRandom 0 1 = some r ∧ r.sender.setLockedCoins = [⟨3, 0⟩] ∧
      r.sender.lockedCoins.map CTxIn.prevout = [] ∧ ¬ r.sender.Accounted ∅ := by
  constructor
  · obtain ⟨r, hr, hlocked, hrecord⟩ := exists_run (sessionSender.prepareStashedsendDenominate CWallet.timeEnv
      prepareCtx submitCtx denominatedWallet prepareRandom 0 1) [⟨3, 0⟩] [⟨5, 0⟩, ⟨3, 0⟩] (by decide)
    refine ⟨r, hr, hlocked, hrecord, fun hacc => ?_⟩
    have hin := (hacc.mem_held ⟨5, 0⟩).mpr (.inr (hrecord ▸ List.mem_cons_self))
    rw [hlocked] at hin
    exact absurd hin (by decide)
  · obtain ⟨r, hr, hlocked, hrecord⟩ := exists_run (unsetSender.prepareStashedsendDenominate CWallet.timeEnv
      prepareCtx submitCtx denominatedWallet prepareRandom 0 1) [⟨3, 0⟩] [] (by decide)
    refine ⟨r, hr, hlocked, hrecord, fun hacc => ?_⟩
    have hout := (hacc.mem_held ⟨3, 0⟩).mp (hlocked ▸ List.mem_cons_self)
    rw [hrecord] at hout
    exact hout.elim (Set.notMem_empty _) List.not_mem_nil

end MixingSender

end Sphinx
