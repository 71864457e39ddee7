import Sphinx.Wallet
import Sphinx.Util.TwoWayIndex
import Sphinx.Util.Run

/-!
# The index of spent outpoints

`mapTxSpends` is written when a transaction is loaded, and only then.

* `CWallet.spendsCoherent_iff`: what `IsSpent` and `GetConflicts` answer follows from the index;
* `CWallet.spendsCoherent_iff_everyStep`: over a run the index is exact as long as `AddToWallet` adds no
  new transaction with inputs at run time, loads none a second time, and none with inputs is erased.
-/

namespace Sphinx

open PairIndex

variable {m : StdMap Uint256 CWalletTx}

theorem CWalletTx.spends_congr {wtx wtx' : CWalletTx} (h : wtx.tx = wtx'.tx) :
    wtx.spends = wtx'.spends := by
  rw [spends, spends, h]

namespace CWallet

variable (env : Env) (w : CWallet)

/-- The transaction under a hash. -/
def txOf (mapWallet : StdMap Uint256 CWalletTx) (hash : Uint256) : Option CTransaction :=
  (mapWallet.lookup hash).map CWalletTx.tx

/-- The outpoints spent by the transaction under a hash. -/
def spendsOf (hash : Uint256) : List COutPoint := (w.mapWallet.lookup hash).elim [] CWalletTx.spends

/-- `outpoint` is an input of the wallet transaction `hash`, which is no coinbase. -/
def Spends (hash : Uint256) (outpoint : COutPoint) : Prop :=
  ∃ wtx, w.mapWallet.lookup hash = some wtx ∧ wtx.tx.isCoinBase = false ∧ outpoint ∈ wtx.tx.prevouts

structure SpendsCoherent : Prop where
  /-- No pair is there twice. -/
  nodup : w.mapTxSpends.Nodup
  /-- The pairs are those of the inputs. -/
  index : ∀ outpoint hash, (outpoint, hash) ∈ w.mapTxSpends ↔ w.Spends hash outpoint
  isSpent : ∀ getDepth hash n, w.isSpent getDepth hash n = true ↔
    ∃ wtxid wtx, w.mapWallet.lookup wtxid = some wtx ∧ 0 ≤ getDepth wtx ∧ w.Spends wtxid ⟨hash, n⟩
  getConflicts : ∀ txid wtxid, wtxid ∈ w.getConflicts txid ↔
    ∃ wtx, w.mapWallet.lookup txid = some wtx ∧ ∃ outpoint ∈ wtx.tx.prevouts,
      w.Spends wtxid outpoint ∧ ∃ other, other ≠ wtxid ∧ w.Spends other outpoint

/-- The calls that change the wallet's transactions. -/
inductive SpendsCall
  | addToWallet (ctx : WalletCtx) (wtxIn : CWalletTx) (fFromLoadWallet : Bool)
  | eraseFromWallet (hash : Uint256)

/-- The wallet after a call. -/
def stepSpends : SpendsCall → Option CWallet
  | .addToWallet ctx wtxIn fFromLoadWallet =>
    some (if fFromLoadWallet then w.addFromLoad env wtxIn else (w.addToWallet env ctx wtxIn).2)
  | .eraseFromWallet hash => some (w.eraseFromWallet hash)

/-- A load adds a transaction without repeated inputs under a hash that spends nothing so far; at run time
a transaction that spends something is there already; what is erased spends nothing. -/
def IndexedCall : SpendsCall → Prop
  | .addToWallet _ wtxIn true =>
    wtxIn.spends.Nodup ∧ w.spendsOf (env.getHash wtxIn.tx) = []
  | .addToWallet _ wtxIn false =>
    (w.mapWallet.lookup (env.getHash wtxIn.tx)).isSome ∨ wtxIn.spends = []
  | .eraseFromWallet hash => w.fFileBacked = true → w.spendsOf hash = []

variable {env w}

theorem mem_spendsOf {hash : Uint256} {outpoint : COutPoint} :
    outpoint ∈ w.spendsOf hash ↔ w.Spends hash outpoint := by
  unfold spendsOf Spends
  cases hlookup : w.mapWallet.lookup hash with
  | none => simp
  | some wtx =>
    cases hcoinbase : wtx.tx.isCoinBase <;> simp [CWalletTx.spends, hcoinbase]

/-! ### The answers follow from the index -/

theorem isSpent_iff (h : Exact w.spendsOf w.mapTxSpends) (getDepth : CWalletTx → Int) (hash : Uint256)
    (n : Nat) : w.isSpent getDepth hash n = true ↔
      ∃ wtxid wtx, w.mapWallet.lookup wtxid = some wtx ∧ 0 ≤ getDepth wtx ∧ w.Spends wtxid ⟨hash, n⟩ := by
  unfold isSpent
  rw [List.any_eq_true]
  constructor
  · rintro ⟨wtxid, hmem, hdepth⟩
    have hspends := mem_spendsOf.mp ((mem_owners h).mp hmem)
    obtain ⟨wtx, hlookup, hinput⟩ := hspends
    rw [hlookup] at hdepth
    exact ⟨wtxid, wtx, hlookup, of_decide_eq_true hdepth, wtx, hlookup, hinput⟩
  · rintro ⟨wtxid, wtx, hlookup, hdepth, hspends⟩
    refine ⟨wtxid, (mem_owners h).mpr (mem_spendsOf.mpr hspends), ?_⟩
    rw [hlookup]
    exact decide_eq_true hdepth

theorem mem_getConflicts_iff (h : Exact w.spendsOf w.mapTxSpends) (txid wtxid : Uint256) :
    wtxid ∈ w.getConflicts txid ↔
      ∃ wtx, w.mapWallet.lookup txid = some wtx ∧ ∃ outpoint ∈ wtx.tx.prevouts,
        w.Spends wtxid outpoint ∧ ∃ other, other ≠ wtxid ∧ w.Spends other outpoint := by
  unfold getConflicts
  cases hlookup : w.mapWallet.lookup txid with
  | none => simp
  | some wtx =>
    simp only [List.mem_toFinset, List.mem_flatMap, Option.some.injEq, exists_eq_left']
    refine exists_congr fun outpoint => and_congr_right fun _ => ?_
    constructor
    · intro hmem
      split_ifs at hmem with hlen
      · cases hmem
      · obtain ⟨k, k', hne, hk, hk'⟩ := (one_lt_length_owners h outpoint).mp (not_le.mp hlen)
        refine ⟨mem_spendsOf.mp ((mem_owners h).mp hmem), ?_⟩
        by_cases hkw : k = wtxid
        · exact ⟨k', fun hk'w => hne (hkw.trans hk'w.symm), mem_spendsOf.mp hk'⟩
        · exact ⟨k, hkw, mem_spendsOf.mp hk⟩
    · rintro ⟨hspends, other, hne, hother⟩
      have hlen : ¬ (w.spenders outpoint).length ≤ 1 := not_le.mpr
        ((one_lt_length_owners h outpoint).mpr
          ⟨other, wtxid, hne, mem_spendsOf.mpr hother, mem_spendsOf.mpr hspends⟩)
      rw [if_neg hlen]
      exact (mem_owners h).mpr (mem_spendsOf.mpr hspends)

/-- **An exact index is all that is needed.** -/
theorem spendsCoherent_iff : w.SpendsCoherent ↔ Exact w.spendsOf w.mapTxSpends := by
  constructor
  · intro h
    exact ⟨h.nodup, fun outpoint hash => (h.index outpoint hash).trans mem_spendsOf.symm⟩
  · intro h
    exact ⟨h.1, fun outpoint hash => (h.2 outpoint hash).trans mem_spendsOf, isSpent_iff h,
      mem_getConflicts_iff h⟩

/-! ### What the calls do to the index -/

theorem spendsOf_eq_of_txOf {w w' : CWallet}
    (h : ∀ k, txOf w'.mapWallet k = txOf w.mapWallet k) : w'.spendsOf = w.spendsOf := by
  funext k
  have hk := h k
  unfold txOf at hk
  unfold spendsOf
  cases hlookup : w.mapWallet.lookup k <;> cases hlookup' : w'.mapWallet.lookup k <;>
    simp only [hlookup, hlookup', Option.map_none, Option.map_some, Option.some.injEq, reduceCtorEq] at hk
  · rfl
  · exact CWalletTx.spends_congr hk

theorem spendsOf_insert (hash : Uint256) (wtx : CWalletTx) :
    { w with mapWallet := w.mapWallet.insert hash wtx }.spendsOf =
      Function.update w.spendsOf hash wtx.spends := by
  funext k
  unfold spendsOf
  by_cases hk : k = hash
  · subst hk
    simp
  · simp [hk, AList.lookup_insert_ne hk]

theorem spendsOf_erase (hash : Uint256) :
    { w with mapWallet := w.mapWallet.erase hash }.spendsOf = Function.update w.spendsOf hash [] := by
  funext k
  unfold spendsOf
  by_cases hk : k = hash
  · subst hk
    simp
  · simp [hk, AList.lookup_erase_ne hk]

end CWallet

theorem CWalletTx.tx_updateSpent (wtx : CWalletTx) (vfNewSpent : List Bool) :
    (wtx.updateSpent vfNewSpent).2.tx = wtx.tx := by
  simp only [updateSpent]
  split <;> rfl

theorem CWalletTx.tx_merge (wtx wtxIn : CWalletTx) : (wtx.merge wtxIn).2.tx = wtx.tx := by
  simp only [merge, tx_updateSpent]
  split_ifs <;> rfl

namespace CWallet

variable {env : Env} {w : CWallet}

theorem mapTxSpends_addToWallet (ctx : WalletCtx) (wtxIn : CWalletTx) :
    (w.addToWallet env ctx wtxIn).2.mapTxSpends = w.mapTxSpends := by
  simp only [addToWallet]
  split
  · rfl
  · split <;> rfl

theorem spendsOf_addToWallet (ctx : WalletCtx) (wtxIn : CWalletTx) :
    (w.addToWallet env ctx wtxIn).2.spendsOf =
      if (w.mapWallet.lookup (env.getHash wtxIn.tx)).isSome then w.spendsOf
      else Function.update w.spendsOf (env.getHash wtxIn.tx) wtxIn.spends := by
  simp only [addToWallet]
  cases hlookup : w.mapWallet.lookup (env.getHash wtxIn.tx) with
  | none => exact spendsOf_insert _ _
  | some wtx =>
    have hsame (wtx' : CWalletTx) (htx : wtx'.tx = wtx.tx) :
        Function.update w.spendsOf (env.getHash wtxIn.tx) wtx'.spends = w.spendsOf := by
      rw [CWalletTx.spends_congr htx, Function.update_eq_self_iff, spendsOf, hlookup]
      rfl
    have htx : (wtx.markDirty.merge wtxIn).2.tx = wtx.tx := CWalletTx.tx_merge _ _
    dsimp only
    split
    · exact (spendsOf_insert _ _).trans (hsame _ htx)
    · exact (spendsOf_insert _ _).trans (hsame _ htx)

/-! The loops of `SyncMetaData` change no transaction, and add none if all of them are there. -/

theorem txOf_insert_of_lookup {hash : Uint256} {wtx wtx' : CWalletTx}
    (hlookup : m.lookup hash = some wtx) (htx : wtx'.tx = wtx.tx) (k : Uint256) :
    txOf (m.insert hash wtx') k = txOf m k := by
  unfold txOf
  by_cases hk : k = hash
  · subst hk
    rw [AList.lookup_insert, hlookup, Option.map_some, Option.map_some, htx]
  · rw [AList.lookup_insert_ne hk]

theorem txOf_copyMetaDataTo (first : CWalletTx) (m : StdMap Uint256 CWalletTx) (hash k : Uint256) :
    txOf (copyMetaDataTo first m hash) k = txOf m k := by
  unfold copyMetaDataTo
  split
  · rfl
  · next copyTo hlookup => 
    exact txOf_insert_of_lookup hlookup (show (copyMetaData first copyTo).tx = copyTo.tx from rfl) k

theorem txOf_foldl_copyMetaDataTo (first : CWalletTx) (hashes : List Uint256) :
    ∀ (m : StdMap Uint256 CWalletTx) (k : Uint256),
      txOf (hashes.foldl (copyMetaDataTo first) m) k = txOf m k := by
  induction hashes with
  | nil => exact fun m k => rfl
  | cons hash hashes ih =>
    intro m k
    rw [List.foldl_cons, ih, txOf_copyMetaDataTo]

theorem foldl_ensure_of_forall {hashes : List Uint256} (h : ∀ hash ∈ hashes, (m.lookup hash).isSome) :
    hashes.foldl ensure m = m := by
  induction hashes with
  | nil => rfl
  | cons hash hashes ih =>
    rw [List.foldl_cons, ensure, if_pos (h hash List.mem_cons_self)]
    exact ih fun k hk => h k (List.mem_cons_of_mem _ hk)

theorem txOf_syncMetaData {outpoint : COutPoint}
    (h : ∀ hash ∈ w.spenders outpoint, (w.mapWallet.lookup hash).isSome) (k : Uint256) :
    txOf (w.syncMetaData outpoint).mapWallet k = txOf w.mapWallet k := by
  simp only [syncMetaData, foldl_ensure_of_forall h]
  split
  · rfl
  · exact txOf_foldl_copyMetaDataTo _ _ _ k

theorem mapTxSpends_syncMetaData (outpoint : COutPoint) :
    (w.syncMetaData outpoint).mapTxSpends = w.mapTxSpends := by
  simp only [syncMetaData]
  split <;> rfl

/-- Every transaction that the index names is in the wallet. -/
def NamesKnown (w : CWallet) : Prop := ∀ e ∈ w.mapTxSpends, (txOf w.mapWallet e.2).isSome

theorem isSome_txOf {k : Uint256} :
    (txOf m k).isSome = (m.lookup k).isSome := Option.isSome_map

/-- `AddToSpends` writes the inputs to the index and leaves the transactions as they are. -/
theorem addToSpends_spec (wtxid : Uint256) (outpoints : List COutPoint) :
    ∀ {w : CWallet}, w.NamesKnown → (txOf w.mapWallet wtxid).isSome →
      (outpoints.foldl (addToSpendsAt wtxid) w).mapTxSpends =
          w.mapTxSpends ++ outpoints.map (·, wtxid) ∧
        ∀ k, txOf (outpoints.foldl (addToSpendsAt wtxid) w).mapWallet k = txOf w.mapWallet k := by
  induction outpoints with
  | nil => exact fun _ _ => ⟨(List.append_nil _).symm, fun _ => rfl⟩
  | cons outpoint outpoints ih =>
    intro w hknown hwtxid
    have hnames : ∀ e ∈ w.mapTxSpends ++ [(outpoint, wtxid)], (txOf w.mapWallet e.2).isSome := by
      intro e he
      rcases List.mem_append.mp he with he | he
      · exact hknown e he
      · rw [List.mem_singleton.mp he]
        exact hwtxid
    have hspends : (addToSpendsAt wtxid w outpoint).mapTxSpends =
        w.mapTxSpends ++ [(outpoint, wtxid)] := mapTxSpends_syncMetaData outpoint
    have htxs (k : Uint256) : txOf (addToSpendsAt wtxid w outpoint).mapWallet k = txOf w.mapWallet k := by
      refine txOf_syncMetaData (fun hash hmem => ?_) k
      have he := hnames (outpoint, hash) (mem_owners_iff_mem.mp hmem)
      rwa [isSome_txOf] at he
    have hknown' : (addToSpendsAt wtxid w outpoint).NamesKnown := by
      intro e he
      rw [htxs]
      exact hnames e (hspends ▸ he)
    obtain ⟨hindex, hsame⟩ := ih hknown' (by rw [htxs]; exact hwtxid)
    rw [List.foldl_cons, hindex, hspends]
    refine ⟨by simp, fun k => ?_⟩
    rw [hsame, htxs]

theorem namesKnown_of_exact (h : Exact w.spendsOf w.mapTxSpends) : w.NamesKnown := by
  rintro ⟨outpoint, hash⟩ he
  obtain ⟨wtx, hlookup, -⟩ := mem_spendsOf.mp ((h.2 outpoint hash).mp he)
  rw [isSome_txOf, hlookup]
  rfl

theorem addFromLoad_spec (h : Exact w.spendsOf w.mapTxSpends) (wtxIn : CWalletTx) :
    (w.addFromLoad env wtxIn).mapTxSpends =
        w.mapTxSpends ++ wtxIn.spends.map (·, env.getHash wtxIn.tx) ∧
      (w.addFromLoad env wtxIn).spendsOf =
        Function.update w.spendsOf (env.getHash wtxIn.tx) wtxIn.spends := by
  have hinsert (k : Uint256) (hk : (txOf w.mapWallet k).isSome ∨ k = env.getHash wtxIn.tx) :
      (txOf (w.mapWallet.insert (env.getHash wtxIn.tx) wtxIn.markDirty) k).isSome := by
    unfold txOf at hk ⊢
    by_cases heq : k = env.getHash wtxIn.tx
    · subst heq
      rw [AList.lookup_insert]
      rfl
    · rw [AList.lookup_insert_ne heq]
      exact hk.resolve_right heq
  obtain ⟨hindex, htxs⟩ := addToSpends_spec (env.getHash wtxIn.tx) wtxIn.markDirty.spends
    (w := { w with
      mapWallet := w.mapWallet.insert (env.getHash wtxIn.tx) wtxIn.markDirty
      wtxOrdered := insertOrdered w.wtxOrdered wtxIn.markDirty.nOrderPos (.tx (env.getHash wtxIn.tx)) })
    (fun e he => hinsert e.2 (.inl (namesKnown_of_exact h e he))) (hinsert _ (.inr rfl))
  exact ⟨hindex, (spendsOf_eq_of_txOf htxs).trans (spendsOf_insert _ _)⟩

/-! ### Over a run -/

/-- **One call** keeps the index exact in just the cases of `IndexedCall`. -/
theorem exact_stepSpends_iff (h : Exact w.spendsOf w.mapTxSpends) (call : SpendsCall) {w' : CWallet}
    (hstep : w.stepSpends env call = some w') :
    Exact w'.spendsOf w'.mapTxSpends ↔ w.IndexedCall env call := by
  cases call with
  | addToWallet ctx wtxIn fFromLoadWallet =>
    obtain rfl := Option.some.inj hstep
    cases fFromLoadWallet with
    | true =>
      obtain ⟨hindex, hspends⟩ := @addFromLoad_spec env w h wtxIn
      rw [if_pos rfl, hindex, hspends]
      exact exact_update_append_iff h _ _
    | false =>
      rw [if_neg Bool.false_ne_true, mapTxSpends_addToWallet, spendsOf_addToWallet]
      cases hlookup : w.mapWallet.lookup (env.getHash wtxIn.tx) with
      | some wtx => exact iff_of_true h (.inl (by rw [hlookup]; rfl))
      | none =>
        have hnil : w.spendsOf (env.getHash wtxIn.tx) = [] := by rw [spendsOf, hlookup]; rfl
        rw [if_neg (by simp), exact_update_iff h, hnil]
        simp [IndexedCall, hlookup, List.eq_nil_iff_forall_not_mem]
  | eraseFromWallet hash =>
    obtain rfl := Option.some.inj hstep
    unfold IndexedCall eraseFromWallet
    cases hbacked : w.fFileBacked with
    | false => exact iff_of_true h (fun h => absurd h Bool.false_ne_true)
    | true =>
      have herase := spendsOf_erase (w := w) hash
      rw [if_neg (by simp)]
      show Exact { w with mapWallet := w.mapWallet.erase hash }.spendsOf w.mapTxSpends ↔ _
      rw [herase, exact_update_iff h]
      simp [List.eq_nil_iff_forall_not_mem]

/-- **The spends index over a run.**  It has just the inputs of the wallet's transactions, and `IsSpent`
and `GetConflicts` answer accordingly, in every state of a run in which every call is indexed; a call that
is not indexed leads to a state where it has not. -/
theorem spendsCoherent_iff_everyStep (env : Env) (calls : List SpendsCall) {w : CWallet}
    (h : w.SpendsCoherent) :
    Run.Along (stepSpends env) SpendsCoherent calls w ↔
      Run.EveryStep (stepSpends env) (IndexedCall env) calls w := by
  refine Run.along_iff_everyStep (fun hw => hw) ?_ ?_ calls h
  · intro w call w' hw hcall hstep
    exact spendsCoherent_iff.mpr ((exact_stepSpends_iff (spendsCoherent_iff.mp hw) call hstep).mpr hcall)
  · intro w call hw hcall
    have hstep : ∃ w', w.stepSpends env call = some w' := by
      cases call <;> exact ⟨_, rfl⟩
    obtain ⟨w', hw'⟩ := hstep
    refine ⟨w', hw', fun hlost => hcall ?_⟩
    exact (exact_stepSpends_iff (spendsCoherent_iff.mp hw) call hw').mp (spendsCoherent_iff.mp hlost)

/-! ### A wallet that loses track -/

def ownCtx : WalletCtx where
  isMine _ := ISMINE_SPENDABLE

def timeEnv : Env :=
  .permissive CTransaction.nTime CBlock.nTime (fun _ _ _ _ _ _ => true) (BlockFiles.ofBlocks [])

/-- Transaction 2 spends output 0 of transaction 1. -/
def spendingTx : CTransaction where
  nTime := 2
  vin := [{ prevout := ⟨1, 0⟩ }]
  vout := [{ nValue := 5, scriptPubKey := [] }]

theorem spendsCoherent_empty : ({} : CWallet).SpendsCoherent :=
  spendsCoherent_iff.mpr ⟨List.nodup_nil, fun _ _ => by simp [spendsOf]⟩

/-- The transaction is loaded, and then seen again in a block. -/
theorem spendsCoherent_loaded : Run.Along (stepSpends timeEnv) SpendsCoherent
    [.addToWallet ownCtx { tx := spendingTx } true, .addToWallet ownCtx { tx := spendingTx } false] {} := by
  refine (spendsCoherent_iff_everyStep timeEnv _ spendsCoherent_empty).mpr
    ⟨⟨by decide, rfl⟩, fun w' hw' => ?_⟩
  obtain rfl := Option.some.inj hw'
  exact ⟨.inl (by decide), fun _ _ => trivial⟩

/-- The transaction is added at run time: it is in the wallet, and what it spends is not spent for
`IsSpent`.  When it is loaded twice its input is in the index twice, and when it is erased it stays there. -/
theorem not_spendsCoherent_runtime :
    (({} : CWallet).addToWallet timeEnv ownCtx { tx := spendingTx }).2.Spends 2 ⟨1, 0⟩ ∧
    (∀ getDepth,
      (({} : CWallet).addToWallet timeEnv ownCtx { tx := spendingTx }).2.isSpent getDepth 1 0 = false) ∧
    ((({} : CWallet).addFromLoad timeEnv { tx := spendingTx }).addFromLoad timeEnv
      { tx := spendingTx }).mapTxSpends = [(⟨1, 0⟩, 2), (⟨1, 0⟩, 2)] ∧
    ((({} : CWallet).addFromLoad timeEnv { tx := spendingTx }).eraseFromWallet 2).mapTxSpends =
      [(⟨1, 0⟩, 2)] ∧
    ¬ ∀ (env : Env) (calls : List SpendsCall) (w : CWallet), w.SpendsCoherent →
      Run.Along (stepSpends env) SpendsCoherent calls w := by
  have hspends : (({} : CWallet).addToWallet timeEnv ownCtx { tx := spendingTx }).2.Spends 2 ⟨1, 0⟩ :=
    ⟨_, rfl, rfl, List.mem_cons_self⟩
  refine ⟨hspends, fun _ => rfl, by decide, by decide, fun h => ?_⟩
  have hrun := (h timeEnv [.addToWallet ownCtx { tx := spendingTx } false] {} spendsCoherent_empty).2 _ rfl
  exact absurd ((hrun.index ⟨1, 0⟩ 2).mpr hspends) List.not_mem_nil

end CWallet

end Sphinx
