import Sphinx.Equiv.WalletCredit
import Sphinx.Util.Loop

/-!
# Spent coins and the marks of spent outputs

Only `CommitTransaction` marks the outputs that a transaction spends; `SyncTransaction` does not.

* `CWallet.keeps_syncTransaction`: what a synchronised transaction leaves of the marks;
* `SpentState.neverOffered_of_everyStep`: no spent coin is offered over a run in which the transactions
  that the wallet takes up from the connected blocks find their own inputs marked.
-/

namespace Sphinx

open CWallet (ownCtx spendingTx timeEnv)

/-! ### Marks and the cached credit of a transaction -/

namespace CWalletTx

variable {ctx : CreditCtx} {wtx wtx' wtx'' : CWalletTx} {c : Nat → Prop}
variable {o : COutPoint} {tx : CTransaction} {pblock : Option CBlock}

/-- The available credit in the cache is a sum of outputs that are not marked now. -/
def CreditSound (wtx : CWalletTx) : Prop :=
  ∀ value, wtx.cached .availableCredit = some value →
    ∃ ctx : CreditCtx, wtx.sumOutputs ctx ISMINE_SPENDABLE wtx.countsAvailable = some value

/-- A change after which only the outputs in `cleared` may have lost their marks. -/
structure Keeps (c : Nat → Prop) (wtx wtx' : CWalletTx) : Prop where
  tx : wtx'.tx = wtx.tx
  marked : ∀ n < wtx.tx.vout.length, wtx.vfSpent.getD n false = true →
    wtx'.vfSpent.getD n false = true ∨ c n
  credit : wtx.CreditSound → wtx'.CreditSound

theorem Keeps.refl (wtx : CWalletTx) : wtx.Keeps c wtx := ⟨rfl, fun _ _ h => .inl h, id⟩

theorem Keeps.trans (h : wtx.Keeps c wtx') (h' : wtx'.Keeps c wtx'') :
    wtx.Keeps c wtx'' := by
  refine ⟨h'.tx.trans h.tx, fun n hn hmarked => ?_, fun hcredit => h'.credit (h.credit hcredit)⟩
  rcases h.marked n hn hmarked with hmarked' | hcleared
  · exact h'.marked n (by rwa [h.tx]) hmarked'
  · exact .inr hcleared

theorem Keeps.mono {c' : Nat → Prop} (hsub : ∀ n, c n → c' n)
    (h : wtx.Keeps c wtx') : wtx.Keeps c' wtx' :=
  ⟨h.tx, fun n hn hmarked => (h.marked n hn hmarked).imp_right (hsub n), h.credit⟩

theorem creditSound_of_none (h : wtx.cached .availableCredit = none) : wtx.CreditSound := by
  intro value hvalue
  rw [h] at hvalue
  cases hvalue

/-- When a mark changes, the cached value is dropped. -/
theorem creditSound_dropped (wtx : CWalletTx) (vfSpent : List Bool) :
    { wtx with
      vfSpent := vfSpent
      cached := Function.update wtx.cached .availableCredit none }.CreditSound :=
  creditSound_of_none (by dsimp only; rw [Function.update_self])

theorem sumOutputs_countsAvailable (htx : wtx'.tx = wtx.tx)
    (hspent : ∀ n < wtx.tx.vout.length, wtx'.vfSpent.getD n false = wtx.vfSpent.getD n false) :
    wtx'.sumOutputs ctx ISMINE_SPENDABLE wtx'.countsAvailable =
      wtx.sumOutputs ctx ISMINE_SPENDABLE wtx.countsAvailable := by
  calc wtx'.sumOutputs ctx ISMINE_SPENDABLE wtx'.countsAvailable
      = wtx.sumOutputs ctx ISMINE_SPENDABLE wtx'.countsAvailable := by
        rw [sumOutputs, sumOutputs, htx]
    _ = wtx.sumOutputs ctx ISMINE_SPENDABLE wtx.countsAvailable :=
        sumOutputs_congr fun n _ hn => congrArg not (hspent n (List.getElem?_eq_some_iff.mp hn).1)

/-- A change of no mark. -/
theorem keeps_of_marks (htx : wtx'.tx = wtx.tx)
    (hspent : ∀ n < wtx.tx.vout.length, wtx'.vfSpent.getD n false = wtx.vfSpent.getD n false)
    (hcached : ∀ value, wtx'.cached .availableCredit = some value →
      wtx.cached .availableCredit = some value) : wtx.Keeps c wtx' := by
  refine ⟨htx, fun n hn hmarked => .inl ((hspent n hn).trans hmarked), fun hcredit value hvalue => ?_⟩
  obtain ⟨ctx, hsum⟩ := hcredit value (hcached value hvalue)
  exact ⟨ctx, (sumOutputs_countsAvailable htx hspent).trans hsum⟩

theorem keeps_markDirty (wtx : CWalletTx) : wtx.Keeps c wtx.markDirty :=
  ⟨rfl, fun _ _ h => .inl h, fun _ => creditSound_of_none rfl⟩

theorem updateSpentLoop_getD (vfSpent : List Bool) :
    ∀ (vfNewSpent : List Bool) (n : Nat), vfSpent.getD n false = true →
      (updateSpentLoop vfSpent vfNewSpent).getD n false = true := by
  induction vfSpent with
  | nil => intro vfNewSpent n h; cases h
  | cons f vfSpent ih =>
    intro vfNewSpent n h
    cases vfNewSpent with
    | nil => exact h
    | cons g vfNewSpent =>
      cases n with
      | zero =>
        rw [List.getD_cons_zero] at h
        rw [updateSpentLoop, List.getD_cons_zero, h, Bool.or_true]
      | succ n =>
        rw [List.getD_cons_succ] at h
        rw [updateSpentLoop, List.getD_cons_succ]
        exact ih vfNewSpent n h

theorem keeps_updateSpent (wtx : CWalletTx) (vfNewSpent : List Bool) :
    wtx.Keeps c (wtx.updateSpent vfNewSpent).2 := by
  unfold updateSpent
  dsimp only
  split
  · exact Keeps.refl wtx
  · exact ⟨rfl, fun n _ h => .inl (updateSpentLoop_getD _ _ n h),
      fun _ => creditSound_dropped _ _⟩

theorem keeps_merge (wtx wtxIn : CWalletTx) : wtx.Keeps c (wtx.merge wtxIn).2 := by
  simp only [merge]
  refine Keeps.trans ?_ (keeps_updateSpent _ _)
  split_ifs <;> exact keeps_of_marks rfl (fun _ _ => rfl) fun _ h => h

theorem length_resizedSpent (wtx : CWalletTx) : wtx.resizedSpent.length = wtx.tx.vout.length := by
  rw [resizedSpent, List.length_append, List.length_take, List.length_replicate]
  omega

/-- `MarkSpent` and `MarkUnspent` set one mark. -/
theorem setSpent_spec {nOut : Nat} {fSpent : Bool} (h : wtx.setSpent nOut fSpent = some wtx') :
    wtx.Keeps (fun n => fSpent = false ∧ n = nOut) wtx' ∧ nOut < wtx.tx.vout.length ∧
      wtx'.vfSpent.getD nOut false = fSpent := by
  unfold setSpent at h
  dsimp only at h
  split_ifs at h with hrange hsame
  · obtain rfl := Option.some.inj h
    exact ⟨keeps_of_marks rfl (fun n hn => resizedSpent_getD hn) fun _ hc => hc, not_le.mp hrange, hsame⟩
  · obtain rfl := Option.some.inj h
    have hlt : nOut < wtx.resizedSpent.length := by rw [length_resizedSpent]; exact not_le.mp hrange
    have hset : (wtx.resizedSpent.set nOut fSpent).getD nOut false = fSpent := by
      rw [List.getD_eq_getElem?_getD, List.getElem?_set_self hlt, Option.getD_some]
    refine ⟨⟨rfl, fun n hn hmarked => ?_, fun _ => creditSound_dropped _ _⟩, not_le.mp hrange, hset⟩
    by_cases heq : n = nOut
    · subst heq
      cases fSpent with
      | false => exact .inr ⟨rfl, rfl⟩
      | true => exact .inl hset
    · left
      show (wtx.resizedSpent.set nOut fSpent).getD n false = true
      rw [List.getD_eq_getElem?_getD, List.getElem?_set_ne (Ne.symm heq),
        ← List.getD_eq_getElem?_getD, resizedSpent_getD hn, hmarked]

/-- `GetAvailableCredit` answers 0 or a sum of outputs that are not marked, from its cache too. -/
theorem query_availableCredit (env : Env) (ctx : CreditCtx) (w : CWallet) (h : wtx.CreditSound)
    (fUseCache : Bool) :
    (∀ value, (wtx.query env ctx w fUseCache .availableCredit).1 = some value → value = 0 ∨
      ∃ ctx' : CreditCtx, wtx.sumOutputs ctx' ISMINE_SPENDABLE wtx.countsAvailable = some value) ∧
    wtx.Keeps c (wtx.query env ctx w fUseCache .availableCredit).2 := by
  simp only [query]
  split
  · exact ⟨fun value hvalue => .inl (Option.some.inj hvalue).symm, Keeps.refl wtx⟩
  · unfold cachedOr
    split
    · next value hcached =>
      have hhit : wtx.cached .availableCredit = some value := by
        cases fUseCache
        · cases hcached
        · exact hcached
      exact ⟨fun value' hvalue => .inr (h value' (hhit.trans hvalue)), Keeps.refl wtx⟩
    · split
      · exact ⟨fun value hvalue => (by cases hvalue), Keeps.refl wtx⟩
      · next value hcompute =>
        refine ⟨fun value' hvalue => .inr ⟨ctx, hcompute.trans hvalue⟩, ?_⟩
        refine ⟨rfl, fun n _ hmarked => .inl hmarked, fun _ value' hvalue => ⟨ctx, ?_⟩⟩
        dsimp only at hvalue
        rw [Function.update_self] at hvalue
        exact hcompute.trans hvalue

end CWalletTx

/-! ### Marks in the wallet -/

namespace CWallet

variable {env : Env} {ctx : WalletCtx} {w w' w'' : CWallet} {c : COutPoint → Prop}

/-- The same transactions, which have lost no marks but those in `cleared`. -/
def Keeps (c : COutPoint → Prop) (w w' : CWallet) : Prop :=
  MapLoop.Kept (fun k => CWalletTx.Keeps fun n => c ⟨k, n⟩) w.mapWallet w'.mapWallet

/-- If the outpoint is an output of a wallet transaction, it is marked as spent. -/
def OwnMarked (w : CWallet) (o : COutPoint) : Prop :=
  ∀ prev ∈ w.mapWallet.lookup o.hash, o.n < prev.tx.vout.length → prev.vfSpent.getD o.n false = true

instance (w : CWallet) (o : COutPoint) : Decidable (w.OwnMarked o) :=
  inferInstanceAs (Decidable (∀ prev ∈ w.mapWallet.lookup o.hash, _ → _))

instance (w : CWallet) (hash : Uint256) (o : COutPoint) : Decidable (w.Spends hash o) :=
  decidable_of_iff (o ∈ w.spendsOf hash) mem_spendsOf

theorem Keeps.refl (w : CWallet) : w.Keeps c w :=
  MapLoop.Kept.refl (fun _ wtx => CWalletTx.Keeps.refl wtx) _

theorem Keeps.trans (h : w.Keeps c w') (h' : w'.Keeps c w'') : w.Keeps c w'' :=
  MapLoop.Kept.trans CWalletTx.Keeps.trans h h'

theorem Keeps.mono {c' : COutPoint → Prop} (hsub : ∀ o, c o → c' o)
    (h : w.Keeps c w') : w.Keeps c' w' :=
  MapLoop.Kept.mono (fun hwtx => hwtx.mono fun _ => hsub _) h

theorem keeps_insert {hash : Uint256} {wtx wtx' : CWalletTx} (hlookup : w.mapWallet.lookup hash = some wtx)
    (h : wtx.Keeps (fun n => c ⟨hash, n⟩) wtx') (hmap : w'.mapWallet = w.mapWallet.insert hash wtx') :
    w.Keeps c w' := by
  unfold Keeps
  rw [hmap]
  exact MapLoop.Kept.insert (fun _ wtx _ => CWalletTx.Keeps.refl wtx) hlookup h

theorem Keeps.spends_iff (h : w.Keeps c w') (k : Uint256) (o : COutPoint) :
    w'.Spends k o ↔ w.Spends k o := by
  constructor
  · rintro ⟨wtx', hlookup, hinput⟩
    obtain ⟨wtx, hwtx, hkeeps⟩ := h.source hlookup
    exact ⟨wtx, hwtx, by rwa [hkeeps.tx] at hinput⟩
  · rintro ⟨wtx, hlookup, hinput⟩
    obtain ⟨wtx', hwtx', hkeeps⟩ := h.present k wtx hlookup
    exact ⟨wtx', hwtx', by rwa [hkeeps.tx]⟩

theorem Keeps.ownMarked (h : w.Keeps c w') (ho : w.OwnMarked o) (hclear : ¬ c o) : w'.OwnMarked o := by
  intro prev' hlookup hn
  obtain ⟨prev, hprev, hkeeps⟩ := h.source hlookup
  rw [hkeeps.tx] at hn
  exact (hkeeps.marked o.n hn (ho prev hprev hn)).resolve_right hclear

theorem Keeps.creditSound (h : w.Keeps c w')
    (hcredit : ∀ k wtx, w.mapWallet.lookup k = some wtx → wtx.CreditSound) :
    ∀ k wtx, w'.mapWallet.lookup k = some wtx → wtx.CreditSound := by
  intro k wtx' hlookup
  obtain ⟨wtx, hwtx, hkeeps⟩ := h.source hlookup
  exact hkeeps.credit (hcredit k wtx hwtx)

theorem keeps_foldl {α : Type} {f : CWallet → α → CWallet} (as : List α) :
    (∀ a ∈ as, ∀ w : CWallet, w.Keeps c (f w a)) →
      ∀ w : CWallet, w.Keeps c (as.foldl f w) := by
  induction as with
  | nil => exact fun _ w => Keeps.refl w
  | cons a as ih =>
    intro h w
    rw [List.forall_mem_cons] at h
    exact (h.1 w).trans (ih h.2 _)

/-! ### The calls -/

theorem keeps_markDirtyAt (w : CWallet) (hash : Uint256) : w.Keeps c (w.markDirtyAt hash) := by
  unfold markDirtyAt
  split
  · exact Keeps.refl w
  · next wtx hlookup => exact keeps_insert hlookup (CWalletTx.keeps_markDirty wtx) rfl

theorem keeps_disableInput (w : CWallet) (txin : CTxIn) :
    w.Keeps (fun o => o = txin.prevout) (w.disableInput ctx txin) := by
  unfold disableInput
  split
  · exact Keeps.refl w
  · next prev hlookup =>
    split
    · exact Keeps.refl w
    · split
      · exact Keeps.refl w
      · split
        · exact Keeps.refl w
        · next prev' hset =>
          refine keeps_insert hlookup ((CWalletTx.setSpent_spec hset).1.mono ?_) rfl
          rintro n ⟨-, rfl⟩
          rfl

theorem keeps_syncDisconnected (h : w.syncDisconnected ctx tx = some w') :
    w.Keeps (fun o => tx.isCoinStake = true ∧ o ∈ tx.prevouts) w' := by
  unfold syncDisconnected at h
  split at h
  · next hcoinstake =>
    obtain ⟨fFromMe, -, h⟩ := Option.bind_eq_some_iff.mp h
    cases fFromMe with
    | false =>
      obtain rfl := Option.some.inj h
      exact Keeps.refl w
    | true =>
      rw [if_pos rfl, disableTransaction, hcoinstake, Bool.not_true, if_neg Bool.false_ne_true] at h
      obtain ⟨fFromMe, -, rfl⟩ := Option.map_eq_some_iff.mp h
      split
      · refine keeps_foldl tx.vin (fun txin hmem w => (keeps_disableInput w txin).mono ?_) w
        rintro o rfl
        exact ⟨hcoinstake, List.mem_map_of_mem hmem⟩
      · exact Keeps.refl w
  · obtain rfl := Option.some.inj h
    exact Keeps.refl w

/-- A transaction that has been put under a new hash. -/
def Adds (w w' : CWallet) (hash : Uint256) (tx : CTransaction) : Prop :=
  w.mapWallet.lookup hash = none ∧
    ∃ wtx : CWalletTx, wtx.tx = tx ∧ wtx.CreditSound ∧ w'.mapWallet = w.mapWallet.insert hash wtx

/-- `AddToWallet` adds the transaction, or keeps all marks. -/
theorem addToWallet_spec (env : Env) (ctx : WalletCtx) (w : CWallet) (wtxIn : CWalletTx) :
    w.Adds (w.addToWallet env ctx wtxIn).2 (env.getHash wtxIn.tx) wtxIn.tx ∨
      (w.mapWallet.lookup (env.getHash wtxIn.tx)).isSome ∧
        w.Keeps c (w.addToWallet env ctx wtxIn).2 := by
  simp only [addToWallet]
  cases hlookup : w.mapWallet.lookup (env.getHash wtxIn.tx) with
  | none =>
    exact .inl ⟨hlookup, w.newWalletTx env ctx wtxIn, rfl, CWalletTx.creditSound_of_none rfl, rfl⟩
  | some wtx =>
    have hmerge : wtx.Keeps (fun n => c ⟨env.getHash wtxIn.tx, n⟩) (wtx.markDirty.merge wtxIn).2 :=
      (CWalletTx.keeps_markDirty wtx).trans (CWalletTx.keeps_merge _ _)
    refine .inr ⟨rfl, ?_⟩
    dsimp only
    split
    · exact keeps_insert hlookup hmerge rfl
    · exact keeps_insert hlookup (hmerge.trans (CWalletTx.keeps_markDirty _)) rfl

/-- The wallet has the transaction, or takes it up because it is its own. -/
def TakesUp (env : Env) (ctx : WalletCtx) (w : CWallet) (tx : CTransaction) : Prop :=
  (w.mapWallet.lookup (env.getHash tx)).isSome ∨ ctx.isMineTx tx = true ∨ w.isFromMe ctx tx = some true

instance (env : Env) (ctx : WalletCtx) (w : CWallet) (tx : CTransaction) :
    Decidable (TakesUp env ctx w tx) :=
  inferInstanceAs (Decidable (_ ∨ _ ∨ _))

theorem tx_syncedTx (tx : CTransaction) (pblock : Option CBlock) :
    (syncedTx env ctx tx pblock).tx = tx := by
  unfold syncedTx
  dsimp only
  split
  · rfl
  · next block =>
    rw [CWalletTx.setMerkleBranch]
    split <;> rfl

theorem addToWalletIfInvolvingMe_spec {r : Bool × CWallet}
    (h : w.addToWalletIfInvolvingMe env ctx tx pblock = some r) :
    (r = (false, w) ∧ ¬ w.TakesUp env ctx tx) ∨ w.TakesUp env ctx tx ∧
      (w.Adds r.2 (env.getHash tx) tx ∨
        (w.mapWallet.lookup (env.getHash tx)).isSome ∧ w.Keeps c r.2) := by
  have hadd := addToWallet_spec (c := c) env ctx w (syncedTx env ctx tx pblock)
  rw [tx_syncedTx] at hadd
  unfold addToWalletIfInvolvingMe at h
  split at h
  · next hown =>
    obtain rfl := Option.some.inj h
    rw [Bool.or_eq_true] at hown
    exact .inr ⟨hown.imp_right .inl, hadd⟩
  · next hown =>
    obtain ⟨fFromMe, hfrom, rfl⟩ := Option.map_eq_some_iff.mp h
    cases fFromMe with
    | true => exact .inr ⟨.inr (.inr hfrom), hadd⟩
    | false =>
      refine .inl ⟨rfl, ?_⟩
      rw [Bool.or_eq_true, not_or] at hown
      rintro (hin | hmine | hfrom')
      · exact hown.1 hin
      · exact hown.2 hmine
      · rw [hfrom] at hfrom'
        cases hfrom'

theorem Adds.isSome {hash : Uint256} (h : w.Adds w' hash tx) :
    (w'.mapWallet.lookup hash).isSome := by
  obtain ⟨-, wtx, -, -, hmap⟩ := h
  rw [hmap, AList.lookup_insert]
  rfl

theorem Keeps.isSome (h : w.Keeps c w') {k : Uint256} (hk : (w.mapWallet.lookup k).isSome) :
    (w'.mapWallet.lookup k).isSome := by
  obtain ⟨wtx, hwtx⟩ := Option.isSome_iff_exists.mp hk
  obtain ⟨wtx', hwtx', -⟩ := h.present k wtx hwtx
  rw [hwtx']
  rfl

/-- **`SyncTransaction`** leaves the wallet alone, or adds the transaction if it is new and keeps the marks,
apart from those of the inputs of a disconnected coinstake. -/
theorem keeps_syncTransaction {fConnect : Bool}
    (h : w.syncTransaction env ctx tx pblock fConnect = some w') :
    (w' = w ∧ ¬ w.TakesUp env ctx tx) ∨ w.TakesUp env ctx tx ∧ ∃ w1,
      (w.Adds w1 (env.getHash tx) tx ∨
        (w.mapWallet.lookup (env.getHash tx)).isSome ∧ w.Keeps (fun _ => False) w1) ∧
      w1.Keeps (fun o => fConnect = false ∧ tx.isCoinStake = true ∧ o ∈ tx.prevouts) w' := by
  rw [syncTransaction, Option.bind_eq_bind, Option.bind_eq_some_iff] at h
  obtain ⟨r, hr, h⟩ := h
  rcases addToWalletIfInvolvingMe_spec (c := fun _ => False) hr with ⟨rfl, hnot⟩ | ⟨htakes, hadded⟩
  · obtain rfl := Option.some.inj h
    exact .inl ⟨rfl, hnot⟩
  · refine .inr ⟨htakes, r.2, hadded, ?_⟩
    split at h
    · obtain rfl := Option.some.inj h
      exact Keeps.refl _
    · have hin : (r.2.mapWallet.lookup (env.getHash tx)).isSome :=
        hadded.elim Adds.isSome fun hkeeps => hkeeps.2.isSome hkeeps.1
      have hdirty (c : COutPoint → Prop) :
          r.2.Keeps c ((tx.prevouts.map COutPoint.hash).foldl markDirtyAt r.2) :=
        keeps_foldl _ (fun hash _ w => keeps_markDirtyAt w hash) r.2
      split at h
      · next hconnect =>
        obtain rfl : fConnect = false := by simpa using hconnect
        refine (hdirty _).trans ((keeps_syncDisconnected h).mono fun o ho => ⟨rfl, ho⟩)
      · obtain ⟨r', hr', h⟩ := Option.bind_eq_some_iff.mp h
        obtain rfl := Option.some.inj h
        -- now the transaction is there, so nothing is added a second time
        have hin' := (hdirty fun _ => False).isSome hin
        rcases addToWalletIfInvolvingMe_spec (c := fun _ => False) hr' with
          ⟨rfl, -⟩ | ⟨-, hadded' | ⟨-, hkeeps⟩⟩
        · exact hdirty _
        · rw [hadded'.1] at hin'
          cases hin'
        · exact (hdirty _).trans (hkeeps.mono fun _ => False.elim)

theorem markCoin_spec {txin : CTxIn} (h : w.markCoin txin = some w') :
    w.Keeps (fun _ => False) w' ∧ w'.OwnMarked txin.prevout := by
  simp only [markCoin] at h
  obtain ⟨coin, hcoin, h⟩ := Option.bind_eq_some_iff.mp h
  obtain ⟨coin', hmark, rfl⟩ := Option.map_eq_some_iff.mp h
  obtain ⟨hkeeps, hrange, hmarked⟩ := CWalletTx.setSpent_spec hmark
  unfold ensure at hcoin
  split at hcoin
  · next hin =>
    refine ⟨keeps_insert hcoin ((CWalletTx.keeps_markDirty coin).trans (hkeeps.mono ?_))
      (by rw [ensure, if_pos hin]), ?_⟩
    · rintro n ⟨hfalse, -⟩
      cases hfalse
    · intro prev hprev _
      dsimp only at hprev
      rw [AList.lookup_insert] at hprev
      obtain rfl := Option.some.inj hprev
      exact hmarked
  · -- an inserted transaction has no outputs, so `MarkSpent` throws
    rw [AList.lookup_insert] at hcoin
    obtain rfl := Option.some.inj hcoin
    exact absurd hrange (Nat.not_lt_zero _)

theorem commitTransaction_eq (env : Env) (ctx : WalletCtx) (w : CWallet) (wtxNew : CWalletTx) :
    ∃ mapValue, w.commitTransaction env ctx wtxNew = wtxNew.tx.vin.foldlM markCoin
      (w.addToWallet env ctx { wtxNew with mapValue := mapValue }).2 := ⟨_, rfl⟩

theorem foldlM_markCoin_spec (vin : List CTxIn) :
    ∀ {w w' : CWallet}, vin.foldlM markCoin w = some w' →
      w.Keeps (fun _ => False) w' ∧ ∀ txin ∈ vin, w'.OwnMarked txin.prevout := by
  induction vin with
  | nil =>
    intro w w' h
    obtain rfl := Option.some.inj h
    exact ⟨Keeps.refl w, List.forall_mem_nil _⟩
  | cons txin vin ih =>
    intro w w' h
    rw [List.foldlM_cons, Option.bind_eq_bind, Option.bind_eq_some_iff] at h
    obtain ⟨w1, hmark, h⟩ := h
    obtain ⟨hkeeps, hmarked⟩ := markCoin_spec hmark
    obtain ⟨hkeeps', hmarked'⟩ := ih h
    exact ⟨hkeeps.trans hkeeps',
      List.forall_mem_cons.mpr ⟨hkeeps'.ownMarked hmarked id, hmarked'⟩⟩

end CWallet

/-! ### Runs -/

/-- A wallet and the transactions of the connected blocks. -/
structure SpentState where
  wallet : CWallet := {}
  mainTxs : List Uint256 := []

inductive SpentEvent
  /-- A block is connected or disconnected with one event for each of its transactions. -/
  | connect (ctx : WalletCtx) (tx : CTransaction) (block : CBlock)
  | disconnect (ctx : WalletCtx) (tx : CTransaction) (block : CBlock)
  /-- The pool accepts a transaction. -/
  | accept (ctx : WalletCtx) (tx : CTransaction)
  /-- This copy of the wallet sends a transaction. -/
  | commit (ctx : WalletCtx) (wtxNew : CWalletTx)
  /-- A call of `GetAvailableCredit`. -/
  | credit (ctx : CreditCtx) (hash : Uint256) (fUseCache : Bool)

namespace SpentState

variable (env : Env) (st : SpentState)

def step : SpentEvent → Option SpentState
  | .connect ctx tx block => (st.wallet.syncTransaction env ctx tx (some block) true).map fun w =>
      { wallet := w, mainTxs := env.getHash tx :: st.mainTxs }
  | .disconnect ctx tx block => (st.wallet.syncTransaction env ctx tx (some block) false).map fun w =>
      { wallet := w, mainTxs := st.mainTxs.filter (· ≠ env.getHash tx) }
  | .accept ctx tx => (st.wallet.syncTransaction env ctx tx none true).map fun w =>
      { st with wallet := w }
  | .commit ctx wtxNew => (st.wallet.commitTransaction env ctx wtxNew).map fun w =>
      { st with wallet := w }
  | .credit ctx hash fUseCache => some { st with
      wallet :=
        match st.wallet.mapWallet.lookup hash with
        | none => st.wallet
        | some wtx => { st.wallet with
            mapWallet := st.wallet.mapWallet.insert hash
              (wtx.query env ctx st.wallet fUseCache .availableCredit).2 } }

/-- `o` is an output of the wallet transaction `prev` that a wallet transaction of the main chain
spends. -/
structure Spent (o : COutPoint) (prev : CWalletTx) : Prop where
  lookup : st.wallet.mapWallet.lookup o.hash = some prev
  inRange : o.n < prev.tx.vout.length
  spends : ∃ k ∈ st.mainTxs, st.wallet.Spends k o

/-- No spent coin is offered. -/
structure NeverOffered : Prop where
  isSpent : ∀ {o prev}, st.Spent o prev → prev.isSpent o.n = some true
  /-- `GetAvailableCredit` gives 0 or a sum of other outputs. -/
  availableCredit : ∀ {o prev}, st.Spent o prev → ∀ ctx fUseCache value,
    (prev.query env ctx st.wallet fUseCache .availableCredit).1 = some value → value = 0 ∨
      ∃ ctx' : CreditCtx, prev.sumOutputs ctx' ISMINE_SPENDABLE
        (fun i txout => i ≠ o.n && prev.countsAvailable i txout) = some value
  availableCoins : ∀ {o prev}, st.Spent o prev → ∀ ctx request,
    ∀ coin ∈ st.wallet.availableCoins env ctx request, (⟨coin.hash, coin.i⟩ : COutPoint) ≠ o

/-- A new transaction has no output that is spent already. -/
structure FreshOutputs (w : CWallet) (mainTxs : List Uint256) (tx : CTransaction) : Prop where
  notOwn : ∀ n < tx.vout.length, (⟨env.getHash tx, n⟩ : COutPoint) ∉ tx.prevouts
  notSpent : ∀ n < tx.vout.length, ∀ k ∈ mainTxs, ¬ w.Spends k ⟨env.getHash tx, n⟩

/-- The transaction that the wallet has under the hash of `tx`, once it has taken it up. -/
def takenUp (w : CWallet) (tx : CTransaction) : CTransaction :=
  (CWallet.txOf w.mapWallet (env.getHash tx)).getD tx

/-- The conditions on a transaction that the wallet takes up; `mainTxs` is the chain after it. -/
structure MarkedSync (w : CWallet) (mainTxs : List Uint256) (tx : CTransaction) : Prop where
  /-- In the main chain it finds its own inputs marked. -/
  inputs : env.getHash tx ∈ mainTxs → (takenUp env w tx).isCoinBase = false →
    ∀ o ∈ (takenUp env w tx).prevouts, w.OwnMarked o
  outputs : w.mapWallet.lookup (env.getHash tx) = none → FreshOutputs env w mainTxs tx

/-- An event that leaves the inputs of the main chain marked.  The inputs of a disconnected coinstake are not
spent by another transaction of the main chain. -/
def MarkedStep : SpentEvent → Prop
  | .connect ctx tx _ => st.wallet.TakesUp env ctx tx →
      MarkedSync env st.wallet (env.getHash tx :: st.mainTxs) tx
  | .disconnect ctx tx _ => st.wallet.TakesUp env ctx tx →
      MarkedSync env st.wallet (st.mainTxs.filter (· ≠ env.getHash tx)) tx ∧
        (tx.isCoinStake = true → ∀ o ∈ tx.prevouts,
          ∀ k ∈ st.mainTxs.filter (· ≠ env.getHash tx), ¬ st.wallet.Spends k o)
  | .accept ctx tx => st.wallet.TakesUp env ctx tx → MarkedSync env st.wallet st.mainTxs tx
  | .commit _ wtxNew => st.wallet.mapWallet.lookup (env.getHash wtxNew.tx) = none →
      FreshOutputs env st.wallet st.mainTxs wtxNew.tx
  | .credit _ _ _ => True

/-- Every input of the main chain is marked, and the cached credits do not count marked outputs. -/
structure Inv : Prop where
  marked : ∀ o, ∀ k ∈ st.mainTxs, st.wallet.Spends k o → st.wallet.OwnMarked o
  credit : ∀ k wtx, st.wallet.mapWallet.lookup k = some wtx → wtx.CreditSound

variable {env st} {w w1 w' : CWallet} {mainTxs mainTxs' : List Uint256} {c : COutPoint → Prop}

theorem Inv.neverOffered (h : st.Inv) : st.NeverOffered env := by
  have hmarked : ∀ {o prev}, st.Spent o prev → prev.vfSpent.getD o.n false = true := by
    rintro o prev ⟨hlookup, hrange, k, hk, hspends⟩
    exact h.marked o k hk hspends prev hlookup hrange
  refine ⟨fun {o prev} hspent => ?_, fun {o prev} hspent ctx fUseCache value hvalue => ?_,
    fun {o prev} hspent ctx request coin hcoin heq => ?_⟩
  · rw [CWalletTx.isSpent, if_neg (not_le.mpr hspent.inRange), hmarked hspent]
  · have hsound := h.credit o.hash prev hspent.lookup
    refine ((CWalletTx.query_availableCredit (c := fun _ => False) env ctx st.wallet hsound fUseCache).1
      value hvalue).imp_right fun hsum => ?_
    obtain ⟨ctx', hsum⟩ := hsum
    refine ⟨ctx', Eq.trans (CWalletTx.sumOutputs_congr fun i txout _ => ?_) hsum⟩
    by_cases hi : i = o.n
    · subst hi
      simp only [CWalletTx.countsAvailable, hmarked hspent, Bool.not_true, Bool.and_false]
    · rw [decide_eq_true hi, Bool.true_and]
  · obtain ⟨e, he, hcoin⟩ := List.mem_flatMap.mp hcoin
    unfold CWallet.coinsOf at hcoin
    split at hcoin
    · cases hcoin
    · obtain ⟨out, hout, rfl⟩ := List.mem_map.mp hcoin
      have hoffered := (List.mem_filter.mp hout).2
      subst heq
      have hlookup : st.wallet.mapWallet.lookup e.1 = some e.2 := AList.mem_lookup_iff.mpr he
      obtain rfl : prev = e.2 := Option.some.inj (hspent.lookup.symm.trans hlookup)
      have hmark : e.2.vfSpent.getD out.2 false = true := hmarked hspent
      simp only [CWallet.offersOutput, hmark, Bool.not_true, Bool.and_false, Bool.false_and,
        Bool.false_eq_true] at hoffered

/-! #### What keeps the invariant -/

theorem inv_of_keeps (h : Inv ⟨w, mainTxs⟩) (hkeeps : w.Keeps c w')
    (hclear : ∀ o, c o → ∀ k ∈ mainTxs, ¬ w.Spends k o) : Inv ⟨w', mainTxs⟩ := by
  refine ⟨fun o k hk hspends => ?_, hkeeps.creditSound h.credit⟩
  have hspends' := (hkeeps.spends_iff k o).mp hspends
  exact hkeeps.ownMarked (h.marked o k hk hspends') fun hc => hclear o hc k hk hspends'

/-- A transaction that was there enters the chain. -/
theorem inv_of_enters (h : Inv ⟨w, mainTxs⟩) (hash : Uint256)
    (hmain : ∀ k ∈ mainTxs', k ∈ mainTxs ∨ k = hash)
    (hinputs : hash ∈ mainTxs' → ∀ o, w.Spends hash o → w.OwnMarked o) : Inv ⟨w, mainTxs'⟩ := by
  refine ⟨fun o k hk hspends => ?_, h.credit⟩
  rcases hmain k hk with hold | rfl
  · exact h.marked o k hold hspends
  · exact hinputs hk o hspends

theorem spends_of_adds {hash k : Uint256} (h : w.Adds w' hash tx) (hspends : w'.Spends k o) :
    (k ≠ hash ∧ w.Spends k o) ∨ (k = hash ∧ tx.isCoinBase = false ∧ o ∈ tx.prevouts) := by
  obtain ⟨-, wtx, rfl, -, hmap⟩ := h
  obtain ⟨wtx', hlookup, hinput⟩ := hspends
  rw [hmap] at hlookup
  by_cases hk : k = hash
  · subst hk
    rw [AList.lookup_insert] at hlookup
    obtain rfl := Option.some.inj hlookup
    exact .inr ⟨rfl, hinput⟩
  · rw [AList.lookup_insert_ne hk] at hlookup
    exact .inl ⟨hk, wtx', hlookup, hinput⟩

theorem ownMarked_of_adds {hash : Uint256} (h : w.Adds w' hash tx) (ho : w.OwnMarked o)
    (hne : o.hash = hash → tx.vout.length ≤ o.n) : w'.OwnMarked o := by
  obtain ⟨-, wtx, rfl, -, hmap⟩ := h
  intro prev hlookup hrange
  rw [hmap] at hlookup
  by_cases hk : o.hash = hash
  · subst hk
    rw [AList.lookup_insert] at hlookup
    obtain rfl := Option.some.inj hlookup
    exact absurd hrange (not_lt.mpr (hne rfl))
  · rw [AList.lookup_insert_ne hk] at hlookup
    exact ho prev hlookup hrange

theorem creditSound_of_adds {hash : Uint256} (h : w.Adds w' hash tx)
    (hcredit : ∀ k wtx, w.mapWallet.lookup k = some wtx → wtx.CreditSound) :
    ∀ k wtx, w'.mapWallet.lookup k = some wtx → wtx.CreditSound := by
  obtain ⟨-, wtx, -, hsound, hmap⟩ := h
  intro k wtx' hlookup
  rw [hmap] at hlookup
  by_cases hk : k = hash
  · subst hk
    rw [AList.lookup_insert] at hlookup
    obtain rfl := Option.some.inj hlookup
    exact hsound
  · rw [AList.lookup_insert_ne hk] at hlookup
    exact hcredit k wtx' hlookup

theorem inv_of_adds (h : Inv ⟨w, mainTxs⟩) (hadds : w.Adds w' (env.getHash tx) tx)
    (hmain : ∀ k ∈ mainTxs', k ∈ mainTxs ∨ k = env.getHash tx)
    (hinputs : env.getHash tx ∈ mainTxs' → tx.isCoinBase = false → ∀ o ∈ tx.prevouts, w.OwnMarked o)
    (hfresh : FreshOutputs env w mainTxs' tx) : Inv ⟨w', mainTxs'⟩ := by
  refine ⟨fun o k hk hspends => ?_, creditSound_of_adds hadds h.credit⟩
  rcases spends_of_adds hadds hspends with ⟨hne, hold⟩ | ⟨rfl, hcoinbase, hmem⟩
  · refine ownMarked_of_adds hadds (h.marked o k ((hmain k hk).resolve_right hne) hold) fun hash => ?_
    by_contra hrange
    exact hfresh.notSpent o.n (not_le.mp hrange) k hk (by rw [← hash]; exact hold)
  · refine ownMarked_of_adds hadds (hinputs hk hcoinbase o hmem) fun hash => ?_
    by_contra hrange
    exact hfresh.notOwn o.n (not_le.mp hrange) (by rw [← hash]; exact hmem)

/-- A transaction that the wallet has taken up, or has had before. -/
theorem inv_of_received (h : Inv ⟨w, mainTxs⟩)
    (hadded : w.Adds w1 (env.getHash tx) tx ∨
      (w.mapWallet.lookup (env.getHash tx)).isSome ∧ w.Keeps (fun _ => False) w1)
    (hmain : ∀ k ∈ mainTxs', k ∈ mainTxs ∨ k = env.getHash tx) (hsync : MarkedSync env w mainTxs' tx) :
    Inv ⟨w1, mainTxs'⟩ := by
  rcases hadded with hadds | ⟨hin, hkeeps⟩
  · have htaken : takenUp env w tx = tx := by rw [takenUp, CWallet.txOf, hadds.1]; rfl
    have hinputs := hsync.inputs
    rw [htaken] at hinputs
    exact inv_of_adds h hadds hmain hinputs (hsync.outputs hadds.1)
  · refine inv_of_keeps (inv_of_enters h _ hmain fun hmem o hspends => ?_) hkeeps fun _ => False.elim
    obtain ⟨wtx, hlookup, hcoinbase, ho⟩ := hspends
    have htaken : takenUp env w tx = wtx.tx := by rw [takenUp, CWallet.txOf, hlookup]; rfl
    exact hsync.inputs hmem (by rwa [htaken]) o (by rwa [htaken])

/-! #### The steps -/

theorem inv_of_sync (h : Inv ⟨w, mainTxs⟩) {ctx : WalletCtx} {fConnect : Bool}
    (hstep : w.syncTransaction env ctx tx pblock fConnect = some w')
    (hmain : ∀ k ∈ mainTxs', k ∈ mainTxs ∨ k = env.getHash tx)
    (hsync : w.TakesUp env ctx tx → MarkedSync env w mainTxs' tx)
    (hrefund : w.TakesUp env ctx tx → fConnect = false → tx.isCoinStake = true →
        ∀ o ∈ tx.prevouts, ∀ k ∈ mainTxs', k ≠ env.getHash tx ∧ ¬ w.Spends k o) :
    Inv ⟨w', mainTxs'⟩ := by
  rcases CWallet.keeps_syncTransaction hstep with ⟨rfl, hnot⟩ | ⟨htakes, w1, hadded, hkeeps⟩
  · refine inv_of_enters h _ hmain fun _ o hspends => absurd (.inl ?_) hnot
    obtain ⟨wtx, hlookup, -⟩ := hspends
    rw [hlookup]
    rfl
  · refine inv_of_keeps (inv_of_received h hadded hmain (hsync htakes)) hkeeps ?_
    rintro o ⟨hconnect, hcoinstake, ho⟩ k hk hspends
    obtain ⟨hne, hnot⟩ := hrefund htakes hconnect hcoinstake o ho k hk
    rcases hadded with hadds | ⟨-, hkeeps1⟩
    · rcases spends_of_adds hadds hspends with ⟨-, hold⟩ | ⟨heq, -⟩
      · exact hnot hold
      · exact hne heq
    · exact hnot ((hkeeps1.spends_iff k o).mp hspends)

theorem inv_of_commit (h : Inv ⟨w, mainTxs⟩) {ctx : WalletCtx} {wtxNew : CWalletTx}
    (hstep : w.commitTransaction env ctx wtxNew = some w')
    (hfresh : w.mapWallet.lookup (env.getHash wtxNew.tx) = none → FreshOutputs env w mainTxs wtxNew.tx) :
    Inv ⟨w', mainTxs⟩ := by
  obtain ⟨mapValue, hcommit⟩ := CWallet.commitTransaction_eq env ctx w wtxNew
  rw [hcommit] at hstep
  obtain ⟨hkeeps, hmarked⟩ := CWallet.foldlM_markCoin_spec _ hstep
  have hadd := CWallet.addToWallet_spec (c := fun _ => False) env ctx w { wtxNew with mapValue := mapValue }
  rcases hadd with hadds | ⟨-, hkeeps1⟩
  · have hfresh' := hfresh hadds.1
    have hothers : Inv ⟨w', mainTxs.filter (· ≠ env.getHash wtxNew.tx)⟩ := by
      refine inv_of_keeps (inv_of_adds h hadds (fun k hk => .inl (List.mem_of_mem_filter hk)) ?_
        ⟨hfresh'.notOwn, fun n hn k hk => hfresh'.notSpent n hn k (List.mem_of_mem_filter hk)⟩)
        hkeeps fun _ => False.elim
      intro hmem
      exact absurd rfl (of_decide_eq_true (List.mem_filter.mp hmem).2)
    refine inv_of_enters hothers (env.getHash wtxNew.tx) (fun k hk => ?_) fun _ o hspends => ?_
    · by_cases heq : k = env.getHash wtxNew.tx
      · exact .inr heq
      · exact .inl (List.mem_filter.mpr ⟨hk, decide_eq_true heq⟩)
    · rcases spends_of_adds hadds ((hkeeps.spends_iff _ o).mp hspends) with ⟨hne, -⟩ | ⟨-, -, ho⟩
      · exact absurd rfl hne
      · obtain ⟨txin, htxin, rfl⟩ := List.mem_map.mp ho
        exact hmarked txin htxin
  · exact inv_of_keeps (inv_of_keeps h hkeeps1 fun _ => False.elim) hkeeps
      fun _ => False.elim

theorem inv_of_credit (h : st.Inv) (ctx : CreditCtx) (hash : Uint256) (fUseCache : Bool) {st' : SpentState}
    (hstep : st.step env (.credit ctx hash fUseCache) = some st') : st'.Inv := by
  obtain rfl := Option.some.inj hstep
  cases hlookup : st.wallet.mapWallet.lookup hash with
  | none => exact h
  | some wtx =>
    have hquery := (CWalletTx.query_availableCredit (c := fun _ => False) env ctx st.wallet
      (h.credit hash wtx hlookup) fUseCache).2
    exact inv_of_keeps (c := fun _ => False) h (CWallet.keeps_insert hlookup hquery rfl)
      fun _ => False.elim

theorem inv_step (h : st.Inv) {event : SpentEvent} (hmarked : st.MarkedStep env event) {st' : SpentState}
    (hstep : st.step env event = some st') : st'.Inv := by
  cases event with
  | connect ctx tx block =>
    obtain ⟨w', hsync, rfl⟩ := Option.map_eq_some_iff.mp hstep
    exact inv_of_sync h hsync (fun k hk => (List.mem_cons.mp hk).symm) hmarked
      fun _ hconnect => absurd hconnect.symm Bool.false_ne_true
  | disconnect ctx tx block =>
    obtain ⟨w', hsync, rfl⟩ := Option.map_eq_some_iff.mp hstep
    refine inv_of_sync h hsync (fun k hk => .inl (List.mem_of_mem_filter hk))
      (fun htakes => (hmarked htakes).1) fun htakes _ hcoinstake o ho k hk => ?_
    exact ⟨of_decide_eq_true (List.mem_filter.mp hk).2, (hmarked htakes).2 hcoinstake o ho k hk⟩
  | accept ctx tx =>
    obtain ⟨w', hsync, rfl⟩ := Option.map_eq_some_iff.mp hstep
    exact inv_of_sync h hsync (fun k hk => .inl hk) hmarked
      fun _ hconnect => absurd hconnect.symm Bool.false_ne_true
  | commit ctx wtxNew =>
    obtain ⟨w', hcommit, rfl⟩ := Option.map_eq_some_iff.mp hstep
    exact inv_of_commit h hcommit hmarked
  | credit ctx hash fUseCache => exact inv_of_credit h ctx hash fUseCache hstep

/-- **No spent coin is offered** in any state of a run in which the transactions that the wallet takes up
from the connected blocks find their inputs marked. -/
theorem neverOffered_of_everyStep (env : Env) (events : List SpentEvent) {st : SpentState} (h : st.Inv)
    (hsteps : Run.EveryStep (step env) (MarkedStep env) events st) :
    Run.Along (step env) (NeverOffered env) events st :=
  Run.along_of_everyStep Inv.neverOffered (fun hst hevent hstep => inv_step hst hevent hstep) events h hsteps

/-! ### A spend by another copy of the wallet -/

theorem inv_empty : ({} : SpentState).Inv :=
  ⟨fun _ _ hk => absurd hk List.not_mem_nil, fun k wtx hlookup => by cases hlookup⟩

/-- Transaction 1 has an output of value 5. -/
def coinTx : CTransaction where
  nTime := 1
  vin := [{ prevout := ⟨9, 0⟩ }]
  vout := [{ nValue := 5, scriptPubKey := [] }]

def coinBlock (tx : CTransaction) : CBlock where
  hashPrevBlock := 0
  nTime := 3
  vtx := [tx]

/-- The coin arrives in a block, this copy spends it, and the spend arrives in a block. -/
theorem neverOffered_sent : Run.Along (step timeEnv) (NeverOffered timeEnv)
    [.connect ownCtx coinTx (coinBlock coinTx), .commit ownCtx { tx := spendingTx },
      .connect ownCtx spendingTx (coinBlock spendingTx)] {} := by
  refine neverOffered_of_everyStep timeEnv _ inv_empty ⟨fun _ => ⟨fun _ _ => by decide,
    fun _ => ⟨by decide, by decide⟩⟩, fun st1 hst1 => ?_⟩
  obtain rfl := Option.some.inj hst1
  refine ⟨fun _ => ⟨by decide, by decide⟩, fun st2 hst2 => ?_⟩
  obtain rfl := Option.some.inj hst2
  exact ⟨fun _ => ⟨fun _ _ => by decide, fun hnew => absurd hnew (by decide)⟩,
    fun _ _ => trivial⟩

/-- Another copy of the wallet sent the spend, so it comes only in a block: the coin is not marked, is counted
and is returned. -/
theorem offered_after_foreign_spend :
    (∃ st prev, [SpentEvent.connect ownCtx coinTx (coinBlock coinTx),
        .connect ownCtx spendingTx (coinBlock spendingTx)].foldlM
          (step timeEnv) {} = some st ∧
      st.Spent ⟨1, 0⟩ prev ∧ prev.isSpent 0 = some false ∧
      (prev.query timeEnv CreditState.creditCtx st.wallet true .availableCredit).1 = some 5 ∧
      { hash := 1, i := 0, nDepth := 10, fSpendable := true } ∈
        st.wallet.availableCoins timeEnv CreditState.creditCtx {}) ∧
    ¬ ∀ (env : Env) (events : List SpentEvent), Run.Along (step env) (NeverOffered env) events {} := by
  constructor
  · exact ⟨_, _, rfl, ⟨rfl, by decide, 2, by decide, by decide⟩,
      by decide, by decide, by decide⟩
  · intro h
    have hlast := (h timeEnv [.connect ownCtx coinTx (coinBlock coinTx),
      .connect ownCtx spendingTx (coinBlock spendingTx)]).last rfl
    have hspent := hlast.isSpent (o := ⟨1, 0⟩)
      ⟨rfl, by decide, 2, by decide, by decide⟩
    exact absurd hspent (by decide)

end SpentState

end Sphinx
