import Sphinx.WalletCredit
import Sphinx.Equiv.WalletSpends

/-!
# What the balance caches hold

`CWalletTx.coherent_iff_everyStep`: over a run of calls on a wallet transaction every query answers the
same from its cache as without, as long as no `LockCoin` or `UnlockCoin` changes the lock of an output that
a cached anonymizable credit depends on.  Every other change clears what depends on it: the marks of spent
outputs clear the available credit, and the values that `MarkDirty` leaves do not change.
-/

namespace Sphinx

open CWallet (getCreditOut isLockedCoin timeEnv)

namespace CWallet

variable {α : Type} {value value' : α → Option CAmount}

/-! ### Loops that add up -/

theorem addCredit_eq_some {nCredit t : CAmount} {a : α} (h : addCredit value nCredit a = some t) :
    (value a).isSome ∧ t = nCredit + (value a).getD 0 := by
  unfold addCredit at h
  rw [Option.bind_eq_some_iff] at h
  obtain ⟨c, hc, h⟩ := h
  split_ifs at h
  rw [hc]
  exact ⟨rfl, (Option.some.inj h).symm⟩

theorem foldlM_addCredit : ∀ {as : List α} {nCredit t : CAmount},
    as.foldlM (addCredit value) nCredit = some t →
      (∀ a ∈ as, (value a).isSome) ∧ t = nCredit + (as.map fun a => (value a).getD 0).sum := by
  intro as
  induction as with
  | nil =>
    intro nCredit t h
    rw [List.foldlM_nil] at h
    exact ⟨List.forall_mem_nil _, by simpa using (Option.some.inj h).symm⟩
  | cons a as ih =>
    intro nCredit t h
    rw [List.foldlM_cons, Option.bind_eq_bind, Option.bind_eq_some_iff] at h
    obtain ⟨nCredit', ha, h⟩ := h
    obtain ⟨hsome, rfl⟩ := addCredit_eq_some ha
    obtain ⟨hrest, ht⟩ := ih h
    refine ⟨List.forall_mem_cons.mpr ⟨hsome, hrest⟩, ?_⟩
    rw [ht, List.map_cons, List.sum_cons]
    ring

theorem foldlM_addCredit_congr : ∀ {as : List α}, (∀ a ∈ as, value a = value' a) →
    ∀ nCredit, as.foldlM (addCredit value) nCredit = as.foldlM (addCredit value') nCredit := by
  intro as
  induction as with
  | nil => exact fun _ _ => rfl
  | cons a as ih =>
    intro h nCredit
    rw [List.forall_mem_cons] at h
    have ha : addCredit value nCredit a = addCredit value' nCredit a := by
      rw [addCredit, addCredit, h.1]
    rw [List.foldlM_cons, List.foldlM_cons, ha]
    exact bind_congr fun n => ih h.2 n

/-- When one element counts differently, so does the sum. -/
theorem foldlM_addCredit_ne {as bs : List α} {a : α} {t : CAmount}
    (hsame : ∀ b ∈ as ++ bs, value b = value' b)
    (ha : (value a).getD 0 ≠ (value' a).getD 0 ∨ value' a = none)
    (h : (as ++ a :: bs).foldlM (addCredit value) 0 = some t) :
    (as ++ a :: bs).foldlM (addCredit value') 0 ≠ some t := by
  intro h'
  obtain ⟨-, ht⟩ := foldlM_addCredit h
  obtain ⟨hsome, ht'⟩ := foldlM_addCredit h'
  have hmap (l : List α) (hl : ∀ b ∈ l, b ∈ as ++ bs) :
      l.map (fun b => (value b).getD 0) = l.map fun b => (value' b).getD 0 :=
    List.map_congr_left fun b hb => by rw [hsame b (hl b hb)]
  rcases ha with hne | hnone
  · rw [ht, List.map_append, List.map_append, List.map_cons, List.map_cons,
      hmap as fun b hb => List.mem_append_left _ hb,
      hmap bs fun b hb => List.mem_append_right _ hb] at ht'
    simp only [List.sum_append, List.sum_cons] at ht'
    exact hne (by linarith)
  · have hmem := hsome a (List.mem_append_right _ List.mem_cons_self)
    rw [hnone] at hmem
    cases hmem

end CWallet

namespace CWalletTx

variable {kind : CacheKind}
variable {env : Env} {ctx : CreditCtx} {w : CWallet} {wtx : CWalletTx}

/-! ### Queries -/

/-- Every cached value is what would be computed, and an immature transaction has no anonymizable
credit. -/
structure Sound (env : Env) (ctx : CreditCtx) (w : CWallet) (wtx : CWalletTx) : Prop where
  cached : ∀ kind value, wtx.cached kind = some value → wtx.compute env ctx w kind = some value
  immature : wtx.isImmature ctx = true → wtx.cached .anonymizableCredit = none

theorem compute_withCached (cached : CacheKind → Option CAmount) (kind : CacheKind) :
    { wtx with cached := cached }.compute env ctx w kind = wtx.compute env ctx w kind := by
  cases kind <;> rfl

/-- Two computations, on the same transaction with different caches, that give the same. -/
structure Same {α : Type} (env : Env) (ctx : CreditCtx) (w : CWallet) (wtx : CWalletTx)
    (r r' : Option α × CWalletTx) : Prop where
  value : r.1 = r'.1
  sound : r.2.Sound env ctx w
  sound' : r'.2.Sound env ctx w
  cached : ∃ cached, r.2 = { wtx with cached := cached }
  cached' : ∃ cached, r'.2 = { wtx with cached := cached }

theorem same_pure {α : Type} (a : Option α) {cached cached' : CacheKind → Option CAmount}
    (h : { wtx with cached := cached }.Sound env ctx w)
    (h' : { wtx with cached := cached' }.Sound env ctx w) :
    Same env ctx w wtx (a, { wtx with cached := cached }) (a, { wtx with cached := cached' }) :=
  ⟨rfl, h, h', ⟨cached, rfl⟩, ⟨cached', rfl⟩⟩

theorem Same.andThen {α β : Type} {r r' : Option α × CWalletTx}
    {f f' : α → CWalletTx → Option β × CWalletTx} (h : Same env ctx w wtx r r')
    (hf : ∀ a {cached cached' : CacheKind → Option CAmount},
      { wtx with cached := cached }.Sound env ctx w → { wtx with cached := cached' }.Sound env ctx w →
      Same env ctx w wtx (f a { wtx with cached := cached }) (f' a { wtx with cached := cached' })) :
    Same env ctx w wtx (andThen r f) (andThen r' f') := by
  obtain ⟨hvalue, hsound, hsound', ⟨cached, hcached⟩, ⟨cached', hcached'⟩⟩ := h
  unfold CWalletTx.andThen
  rw [← hvalue]
  rw [hcached] at hsound
  rw [hcached'] at hsound'
  cases r.1 with
  | none =>
    rw [hcached, hcached']
    exact same_pure none hsound hsound'
  | some a =>
    rw [hcached, hcached']
    exact hf a hsound hsound'

/-- A computed value is put into its cache. -/
theorem Sound.update (h : wtx.Sound env ctx w) {value : CAmount}
    (hcompute : wtx.compute env ctx w kind = some value)
    (hkind : kind = .anonymizableCredit → wtx.isImmature ctx = false) :
    { wtx with cached := Function.update wtx.cached kind (some value) }.Sound env ctx w := by
  refine ⟨fun kind' value' hcached => ?_, fun himmature => ?_⟩
  · dsimp only at hcached
    rw [compute_withCached]
    by_cases heq : kind' = kind
    · subst heq
      rwa [Function.update_self, ← hcompute] at hcached
    · rw [Function.update_of_ne heq] at hcached
      exact h.cached kind' value' hcached
  · have hne : CacheKind.anonymizableCredit ≠ kind := by
      intro heq
      have hmature := hkind heq.symm
      exact Bool.false_ne_true (hmature.symm.trans himmature)
    exact (Function.update_of_ne hne _ _).trans (h.immature himmature)

/-- A query of one value gives what is computed, and keeps the caches sound. -/
theorem cachedOr_spec (h : wtx.Sound env ctx w) (fUseCache : Bool)
    (hkind : kind = .anonymizableCredit → wtx.isImmature ctx = false) :
    (wtx.cachedOr env ctx w fUseCache kind).1 = wtx.compute env ctx w kind ∧
      (wtx.cachedOr env ctx w fUseCache kind).2.Sound env ctx w ∧
      ∃ cached, (wtx.cachedOr env ctx w fUseCache kind).2 = { wtx with cached := cached } := by
  unfold cachedOr
  split
  · next value hcached =>
    have hhit : wtx.cached kind = some value := by
      cases fUseCache
      · cases hcached
      · exact hcached
    exact ⟨(h.cached kind value hhit).symm, h, wtx.cached, rfl⟩
  · split
    · next hcompute => exact ⟨hcompute.symm, h, wtx.cached, rfl⟩
    · next value hcompute => exact ⟨hcompute.symm, h.update hcompute hkind, _, rfl⟩

section

variable {cached cached' : CacheKind → Option CAmount} (h : { wtx with cached := cached }.Sound env ctx w)
  (h' : { wtx with cached := cached' }.Sound env ctx w)

include h h'

theorem same_cachedOr (fUseCache fUseCache' : Bool)
    (hkind : kind = .anonymizableCredit → wtx.isImmature ctx = false) :
    Same env ctx w wtx ({ wtx with cached := cached }.cachedOr env ctx w fUseCache kind)
      ({ wtx with cached := cached' }.cachedOr env ctx w fUseCache' kind) := by
  obtain ⟨hvalue, hsound, hcached⟩ := cachedOr_spec h fUseCache hkind
  obtain ⟨hvalue', hsound', hcached'⟩ := cachedOr_spec h' fUseCache' hkind
  rw [compute_withCached] at hvalue hvalue'
  exact ⟨hvalue.trans hvalue'.symm, hsound, hsound', hcached, hcached'⟩

theorem same_filteredSum (fUseCache fUseCache' : Bool) (filter : Nat)
    {watchKind : CacheKind} (hkind : kind ≠ .anonymizableCredit)
    (hwatch : watchKind ≠ .anonymizableCredit) :
    Same env ctx w wtx ({ wtx with cached := cached }.filteredSum env ctx w fUseCache filter kind watchKind)
      ({ wtx with cached := cached' }.filteredSum env ctx w fUseCache' filter kind watchKind) := by
  unfold filteredSum
  refine Same.andThen ?_ fun value {c c'} hc hc' => Same.andThen ?_ fun watchValue {d d'} hd hd' => ?_
  · split
    · exact same_cachedOr h h' fUseCache fUseCache' fun heq => absurd heq hkind
    · exact same_pure (some 0) h h'
  · split
    · exact same_cachedOr hc hc' fUseCache fUseCache' fun heq => absurd heq hwatch
    · exact same_pure (some 0) hc hc'
  · exact same_pure (some (value + watchValue)) hd hd'

theorem same_getDebit (fUseCache fUseCache' : Bool) (filter : Nat) :
    Same env ctx w wtx ({ wtx with cached := cached }.getDebit env ctx w fUseCache filter)
      ({ wtx with cached := cached' }.getDebit env ctx w fUseCache' filter) := by
  unfold getDebit
  split
  · exact same_pure (some 0) h h'
  · exact same_filteredSum h h' fUseCache fUseCache' filter (by decide) (by decide)

theorem same_isTrusted :
    Same env ctx w wtx ({ wtx with cached := cached }.isTrusted env ctx w)
      ({ wtx with cached := cached' }.isTrusted env ctx w) := by
  unfold isTrusted
  dsimp only [toMerkleTx]
  split_ifs
  · exact same_pure (some false) h h'
  · exact same_pure (some true) h h'
  · exact same_pure (some false) h h'
  · refine Same.andThen (same_getDebit h h' true true ISMINE_ALL) fun nDebit {c c'} hc hc' => ?_
    exact same_pure (some (decide (0 < nDebit) && wtx.parentsTrusted ctx w)) hc hc'

theorem same_isUnconfirmed :
    Same env ctx w wtx ({ wtx with cached := cached }.isUnconfirmed env ctx w)
      ({ wtx with cached := cached' }.isUnconfirmed env ctx w) := by
  unfold isUnconfirmed
  dsimp only
  split
  · exact same_pure (some true) h h'
  · refine Same.andThen (same_isTrusted h h') fun fTrusted {c c'} hc hc' => ?_
    exact same_pure (some (!fTrusted && ctx.getDepthInMainChain false wtx.toMerkleTx = 0)) hc hc'

theorem same_getDenominatedCredit (unconfirmed fUseCache fUseCache' : Bool) :
    Same env ctx w wtx
      ({ wtx with cached := cached }.getDenominatedCredit env ctx w unconfirmed fUseCache)
      ({ wtx with cached := cached' }.getDenominatedCredit env ctx w unconfirmed fUseCache') := by
  have hguard (c : CacheKind → Option CAmount) : ({ wtx with cached := c }.isImmature ctx ||
      decide (ctx.getDepthInMainChain false { wtx with cached := c }.toMerkleTx < 0)) =
        (wtx.isImmature ctx || decide (ctx.getDepthInMainChain false wtx.toMerkleTx < 0)) := rfl
  unfold getDenominatedCredit
  rw [hguard cached, hguard cached']
  cases wtx.isImmature ctx || decide (ctx.getDepthInMainChain false wtx.toMerkleTx < 0) with
  | true => exact same_pure (some 0) h h'
  | false =>
    rw [if_neg Bool.false_ne_true, if_neg Bool.false_ne_true]
    refine Same.andThen (same_isUnconfirmed h h') fun isUnconfirmed {c c'} hc hc' => ?_
    split
    · exact same_pure (some 0) hc hc'
    · refine same_cachedOr hc hc' fUseCache fUseCache' fun heq => ?_
      cases unconfirmed <;> cases heq

/-- A query that gives 0 or the value of one cache, as the transaction is immature or not. -/
theorem same_ite {b : Bool} (fUseCache fUseCache' : Bool)
    (hkind : kind = .anonymizableCredit → b = false → wtx.isImmature ctx = false) :
    Same env ctx w wtx
      (if b then (some 0, { wtx with cached := cached })
        else { wtx with cached := cached }.cachedOr env ctx w fUseCache kind)
      (if b then (some 0, { wtx with cached := cached' })
        else { wtx with cached := cached' }.cachedOr env ctx w fUseCache' kind) := by
  cases b with
  | true => exact same_pure (some 0) h h'
  | false => exact same_cachedOr h h' fUseCache fUseCache' fun heq => hkind heq rfl

end

/-- **A query answers from sound caches what it answers without them**, and leaves them sound. -/
theorem same_query (h : wtx.Sound env ctx w) (fUseCache fUseCache' : Bool) (q : CreditQuery) :
    Same env ctx w wtx (wtx.query env ctx w fUseCache q) (wtx.query env ctx w fUseCache' q) := by
  have hh : { wtx with cached := wtx.cached }.Sound env ctx w := h
  unfold query
  cases q with
  | debit filter => exact same_getDebit hh hh fUseCache fUseCache' filter
  | credit filter =>
    dsimp only
    split
    · exact same_pure (some 0) hh hh
    · exact same_filteredSum hh hh fUseCache fUseCache' filter (by decide) (by decide)
  | immatureCredit =>
    dsimp only
    split
    · exact same_cachedOr hh hh fUseCache fUseCache' fun heq => by cases heq
    · exact same_pure (some 0) hh hh
  | availableCredit => exact same_ite hh hh fUseCache fUseCache' fun heq => by cases heq
  | anonymizableCredit => exact same_ite hh hh fUseCache fUseCache' fun _ hb => hb
  | anonymizedCredit => exact same_ite hh hh fUseCache fUseCache' fun heq => by cases heq
  | denominatedCredit unconfirmed =>
    exact same_getDenominatedCredit hh hh unconfirmed fUseCache fUseCache'
  | immatureWatchOnlyCredit =>
    dsimp only
    split
    · exact same_cachedOr hh hh fUseCache fUseCache' fun heq => by cases heq
    · exact same_pure (some 0) hh hh
  | availableWatchOnlyCredit => exact same_ite hh hh fUseCache fUseCache' fun heq => by cases heq
  | change => exact same_cachedOr hh hh fUseCache fUseCache' fun heq => by cases heq

/-! ### Marks of spent outputs -/

theorem sumOutputs_congr {filter : Nat} {counted counted' : Nat → CTxOut → Bool}
    (h : ∀ i txout, wtx.tx.vout[i]? = some txout → counted i txout = counted' i txout) :
    wtx.sumOutputs ctx filter counted = wtx.sumOutputs ctx filter counted' := by
  refine CWallet.foldlM_addCredit_congr (fun e he => ?_) 0
  rw [h e.2 e.1 (List.mem_zipIdx_iff_getElem?.mp he)]

/-- A change of the marks of spent outputs, after which the available credit is not cached unless no output
counts differently. -/
theorem Sound.setSpent (h : wtx.Sound env ctx w) {vfSpent : List Bool}
    {cached : CacheKind → Option CAmount}
    (hcached : ∀ kind value, cached kind = some value → wtx.cached kind = some value)
    (hspent : cached .availableCredit ≠ none →
      ∀ i < wtx.tx.vout.length, vfSpent.getD i false = wtx.vfSpent.getD i false) :
    { wtx with vfSpent := vfSpent, cached := cached }.Sound env ctx w := by
  refine ⟨fun kind value hkind => ?_, fun himmature => ?_⟩
  · dsimp only at hkind
    have hdrop : { wtx with vfSpent := vfSpent, cached := cached }.compute env ctx w kind =
        { wtx with vfSpent := vfSpent }.compute env ctx w kind := by
      cases kind <;> rfl
    rw [hdrop]
    have hold := h.cached kind value (hcached kind value hkind)
    by_cases heq : kind = .availableCredit
    · subst heq
      refine Eq.trans (sumOutputs_congr fun i txout hi => ?_) hold
      exact congrArg not (hspent (by rw [hkind]; exact Option.some_ne_none value) i
        (List.getElem?_eq_some_iff.mp hi).1)
    · have hsame : { wtx with vfSpent := vfSpent }.compute env ctx w kind =
          wtx.compute env ctx w kind := by
        cases kind <;> first | rfl | exact absurd rfl heq
      rw [hsame, hold]
  · show cached .anonymizableCredit = none
    cases hanon : cached .anonymizableCredit with
    | none => rfl
    | some value =>
      have hnone := h.immature himmature
      rw [hcached _ _ hanon] at hnone
      cases hnone

theorem resizedSpent_getD {i : Nat} (hi : i < wtx.tx.vout.length) :
    wtx.resizedSpent.getD i false = wtx.vfSpent.getD i false := by
  unfold resizedSpent
  simp only [List.getD_eq_getElem?_getD, List.getElem?_append, List.length_take, List.getElem?_take,
    List.getElem?_replicate]
  split
  · rfl
  · next hlen =>
    have hout : wtx.vfSpent[i]? = none := List.getElem?_eq_none (by omega)
    rw [hout]
    split <;> rfl

theorem cached_update_none {cached : CacheKind → Option CAmount} (kind kind' : CacheKind)
    (value : CAmount) (h : Function.update cached kind none kind' = some value) :
    cached kind' = some value := by
  by_cases heq : kind' = kind
  · subst heq
    rw [Function.update_self] at h
    cases h
  · rwa [Function.update_of_ne heq] at h

theorem Sound.markSpent (h : wtx.Sound env ctx w) (nOut : Nat) (fSpent : Bool) {wtx' : CWalletTx}
    (hset : wtx.setSpent nOut fSpent = some wtx') : wtx'.Sound env ctx w := by
  unfold CWalletTx.setSpent at hset
  dsimp only at hset
  split_ifs at hset
  · obtain rfl := Option.some.inj hset
    exact h.setSpent (fun _ _ hc => hc) fun _ i hi => resizedSpent_getD hi
  · obtain rfl := Option.some.inj hset
    refine h.setSpent (cached_update_none _) fun hne => ?_
    rw [Function.update_self] at hne
    exact absurd rfl hne

theorem Sound.updateSpent (h : wtx.Sound env ctx w) (vfNewSpent : List Bool) :
    (wtx.updateSpent vfNewSpent).2.Sound env ctx w := by
  unfold CWalletTx.updateSpent
  dsimp only
  split_ifs
  · exact h
  · refine h.setSpent (cached_update_none _) fun hne => ?_
    rw [Function.update_self] at hne
    exact absurd rfl hne

theorem Sound.markDirty (h : wtx.Sound env ctx w) : wtx.markDirty.Sound env ctx w := by
  have hkept (kind : CacheKind) (value : CAmount) (hc : wtx.markDirty.cached kind = some value) :
      wtx.cached kind = some value := by
    unfold CWalletTx.markDirty at hc
    dsimp only at hc
    split_ifs at hc
    exact hc
  refine ⟨fun kind value hc => ?_, fun _ => rfl⟩
  exact (compute_withCached _ kind).trans (h.cached kind value (hkept kind value hc))

/-! ### Locks of coins -/

/-- The anonymizable credit depends on whether the coin at `o` is locked. -/
def DependsOnLock (env : Env) (ctx : CreditCtx) (w : CWallet) (wtx : CWalletTx) (o : COutPoint) : Prop :=
  ∃ n txout, o = ⟨env.getHash wtx.tx, n⟩ ∧ wtx.tx.vout[n]? = some txout ∧
    wtx.countsAnonymizable env ctx w n txout = true ∧
    getCreditOut ctx ISMINE_SPENDABLE txout ≠ some 0

/-- What an output adds to the anonymizable credit. -/
def anonymizableValue (env : Env) (ctx : CreditCtx) (w : CWallet) (wtx : CWalletTx) (e : CTxOut × Nat) :
    Option CAmount :=
  if wtx.countsAnonymizable env ctx w e.2 e.1 && !w.isLockedCoin (env.getHash wtx.tx) e.2 then
    getCreditOut ctx ISMINE_SPENDABLE e.1
  else some 0

theorem compute_anonymizableCredit : wtx.compute env ctx w .anonymizableCredit =
    wtx.tx.vout.zipIdx.foldlM (CWallet.addCredit (wtx.anonymizableValue env ctx w)) 0 := rfl

theorem countsAnonymizable_withLocks (setLockedCoins : List COutPoint) (i : Nat) (txout : CTxOut) :
    wtx.countsAnonymizable env ctx { w with setLockedCoins := setLockedCoins } i txout =
      wtx.countsAnonymizable env ctx w i txout := rfl

section

variable {setLockedCoins : List COutPoint} {o : COutPoint}
  (hlocks : ∀ o' ≠ o, o' ∈ setLockedCoins ↔ o' ∈ w.setLockedCoins)

include hlocks

theorem isLockedCoin_of_ne {n : Nat} (hne : (⟨env.getHash wtx.tx, n⟩ : COutPoint) ≠ o) :
    { w with setLockedCoins := setLockedCoins }.isLockedCoin (env.getHash wtx.tx) n =
      w.isLockedCoin (env.getHash wtx.tx) n :=
  decide_eq_decide.mpr (hlocks _ hne)

theorem anonymizableValue_of_ne {e : CTxOut × Nat}
    (hne : (⟨env.getHash wtx.tx, e.2⟩ : COutPoint) ≠ o) :
    wtx.anonymizableValue env ctx { w with setLockedCoins := setLockedCoins } e =
      wtx.anonymizableValue env ctx w e := by
  unfold anonymizableValue
  rw [countsAnonymizable_withLocks, isLockedCoin_of_ne hlocks hne]

theorem Sound.setLocks (h : wtx.Sound env ctx w)
    (hdepends : wtx.cached .anonymizableCredit ≠ none → ¬ wtx.DependsOnLock env ctx w o) :
    wtx.Sound env ctx { w with setLockedCoins := setLockedCoins } := by
  refine ⟨fun kind value hc => ?_, h.immature⟩
  have hold := h.cached kind value hc
  by_cases heq : kind = .anonymizableCredit
  · subst heq
    have hnot := hdepends (by rw [hc]; exact Option.some_ne_none value)
    refine Eq.trans (CWallet.foldlM_addCredit_congr (fun e he => ?_) 0) hold
    show wtx.anonymizableValue env ctx { w with setLockedCoins := setLockedCoins } e =
      wtx.anonymizableValue env ctx w e
    by_cases hne : (⟨env.getHash wtx.tx, e.2⟩ : COutPoint) ≠ o
    · exact anonymizableValue_of_ne hlocks hne
    · have hget : wtx.tx.vout[e.2]? = some e.1 := List.mem_zipIdx_iff_getElem?.mp he
      have hzero : wtx.countsAnonymizable env ctx w e.2 e.1 = true →
          getCreditOut ctx ISMINE_SPENDABLE e.1 = some 0 := by
        intro hcounts
        by_contra hcredit
        exact hnot ⟨e.2, e.1, (not_not.mp hne).symm, hget, hcounts, hcredit⟩
      unfold anonymizableValue
      rw [countsAnonymizable_withLocks]
      cases hcounts : wtx.countsAnonymizable env ctx w e.2 e.1 with
      | false => rfl
      | true => rw [hzero hcounts, ite_self, ite_self]
  · rw [← hold]
    cases kind <;> first | rfl | exact absurd rfl heq

/-- A change of a lock that it depends on makes a cached anonymizable credit wrong. -/
theorem compute_ne_of_dependsOnLock (hchanged : o ∈ setLockedCoins ↔ o ∉ w.setLockedCoins)
    (hdepends : wtx.DependsOnLock env ctx w o) {value : CAmount}
    (hvalue : wtx.compute env ctx w .anonymizableCredit = some value) :
    wtx.compute env ctx { w with setLockedCoins := setLockedCoins } .anonymizableCredit ≠ some value := by
  obtain ⟨n, txout, rfl, hget, hcounts, hcredit⟩ := hdepends
  rw [compute_anonymizableCredit] at hvalue ⊢
  have hmem : (txout, n) ∈ wtx.tx.vout.zipIdx := List.mem_zipIdx_iff_getElem?.mpr hget
  have hnodup : (wtx.tx.vout.zipIdx.map Prod.snd).Nodup := by
    rw [List.zipIdx_map_snd]
    exact List.nodup_range'
  obtain ⟨as, bs, hsplit⟩ := List.append_of_mem hmem
  rw [hsplit] at hvalue ⊢
  rw [hsplit, List.map_append, List.map_cons, List.nodup_middle, List.nodup_cons] at hnodup
  refine CWallet.foldlM_addCredit_ne (fun e he => ?_) ?_ hvalue
  · refine (anonymizableValue_of_ne hlocks fun heq => hnodup.1 ?_).symm
    rw [← List.map_append]
    exact List.mem_map.mpr ⟨e, he, (COutPoint.mk.inj heq).2⟩
  · have hunlocked (m : List COutPoint) (hm : (⟨env.getHash wtx.tx, n⟩ : COutPoint) ∉ m) :
        wtx.anonymizableValue env ctx { w with setLockedCoins := m } (txout, n) =
          getCreditOut ctx ISMINE_SPENDABLE txout := by
      simp [anonymizableValue, countsAnonymizable_withLocks, hcounts, isLockedCoin, hm]
    have hlocked (m : List COutPoint) (hm : (⟨env.getHash wtx.tx, n⟩ : COutPoint) ∈ m) :
        wtx.anonymizableValue env ctx { w with setLockedCoins := m } (txout, n) = some 0 := by
      simp [anonymizableValue, isLockedCoin, hm]
    have hne (hsome : (getCreditOut ctx ISMINE_SPENDABLE txout).isSome) :
        (getCreditOut ctx ISMINE_SPENDABLE txout).getD 0 ≠ 0 := by
      obtain ⟨c, hc⟩ := Option.isSome_iff_exists.mp hsome
      rw [hc] at hcredit ⊢
      exact fun hzero => hcredit (congrArg some hzero)
    by_cases hnew : (⟨env.getHash wtx.tx, n⟩ : COutPoint) ∈ setLockedCoins
    · left
      have hsome := (CWallet.foldlM_addCredit hvalue).1 (txout, n) (by simp)
      rw [hunlocked w.setLockedCoins (hchanged.mp hnew)] at hsome
      rw [hunlocked w.setLockedCoins (hchanged.mp hnew), hlocked setLockedCoins hnew]
      exact hne hsome
    · have hold : (⟨env.getHash wtx.tx, n⟩ : COutPoint) ∈ w.setLockedCoins := by
        by_contra hold
        exact hnew (hchanged.mpr hold)
      rw [hlocked w.setLockedCoins hold, hunlocked setLockedCoins hnew]
      cases hc : getCreditOut ctx ISMINE_SPENDABLE txout with
      | none => exact .inr rfl
      | some c =>
        rw [hc] at hne
        exact .inl (hne rfl).symm

end

end CWalletTx

/-! ### Runs -/

/-- A wallet transaction and its wallet. -/
structure CreditState where
  wtx : CWalletTx
  w : CWallet

inductive CreditCall
  | markDirty
  | bindWallet
  | markSpent (nOut : Nat)
  | markUnspent (nOut : Nat)
  | updateSpent (vfNewSpent : List Bool)
  | lockCoin (output : COutPoint)
  | unlockCoin (output : COutPoint)
  | query (q : CreditQuery) (fUseCache : Bool)

namespace CreditState

variable (env : Env) (ctx : CreditCtx) (s : CreditState)

/-- The state after a call; `MarkSpent` and `MarkUnspent` change nothing if they throw. -/
def step : CreditCall → Option CreditState
  | .markDirty => some { s with wtx := s.wtx.markDirty }
  | .bindWallet => some { s with wtx := s.wtx.markDirty }
  | .markSpent nOut => some { s with wtx := (s.wtx.markSpent nOut).getD s.wtx }
  | .markUnspent nOut => some { s with wtx := (s.wtx.markUnspent nOut).getD s.wtx }
  | .updateSpent vfNewSpent => some { s with wtx := (s.wtx.updateSpent vfNewSpent).2 }
  | .lockCoin output => some { s with w := s.w.lockCoin output }
  | .unlockCoin output => some { s with w := s.w.unlockCoin output }
  | .query q fUseCache => some { s with wtx := (s.wtx.query env ctx s.w fUseCache q).2 }

/-- Every query answers the same from the cache as without. -/
def Coherent : Prop :=
  ∀ q, (s.wtx.query env ctx s.w true q).1 = (s.wtx.query env ctx s.w false q).1

/-- A lock is changed only if no cached anonymizable credit depends on it. -/
def LockSafe : CreditCall → Prop
  | .lockCoin output => output ∉ s.w.setLockedCoins →
      s.wtx.cached .anonymizableCredit ≠ none → ¬ s.wtx.DependsOnLock env ctx s.w output
  | .unlockCoin output => output ∈ s.w.setLockedCoins →
      s.wtx.cached .anonymizableCredit ≠ none → ¬ s.wtx.DependsOnLock env ctx s.w output
  | _ => True

variable {env ctx s}

theorem coherent_of_sound (h : s.wtx.Sound env ctx s.w) : s.Coherent env ctx :=
  fun q => (CWalletTx.same_query h true false q).value

theorem mem_lockCoin (w : CWallet) (output o : COutPoint) :
    o ∈ (w.lockCoin output).setLockedCoins ↔ o = output ∨ o ∈ w.setLockedCoins := by
  unfold CWallet.lockCoin
  dsimp only
  split
  · next hmem => exact ⟨.inr, fun ho => ho.elim (fun heq => heq ▸ hmem) id⟩
  · exact List.mem_cons

theorem mem_unlockCoin (w : CWallet) (output o : COutPoint) :
    o ∈ (w.unlockCoin output).setLockedCoins ↔ o ∈ w.setLockedCoins ∧ o ≠ output := by
  simp [CWallet.unlockCoin]

/-- A safe change of the locks keeps the caches sound. -/
theorem sound_setLocks {w' : CWallet} (output : COutPoint) (h : s.wtx.Sound env ctx s.w)
    (hw' : w' = { s.w with setLockedCoins := w'.setLockedCoins })
    (hothers : ∀ o ≠ output, o ∈ w'.setLockedCoins ↔ o ∈ s.w.setLockedCoins)
    (hsafe : ¬ (output ∈ w'.setLockedCoins ↔ output ∈ s.w.setLockedCoins) →
      s.wtx.cached .anonymizableCredit ≠ none → ¬ s.wtx.DependsOnLock env ctx s.w output) :
    s.wtx.Sound env ctx w' := by
  rw [hw']
  by_cases hsame : output ∈ w'.setLockedCoins ↔ output ∈ s.w.setLockedCoins
  · -- no lock has changed, so take an output that the transaction does not have
    have hall (o : COutPoint) : o ∈ w'.setLockedCoins ↔ o ∈ s.w.setLockedCoins := by
      by_cases ho : o = output
      · rw [ho, hsame]
      · exact hothers o ho
    refine h.setLocks (o := ⟨env.getHash s.wtx.tx, s.wtx.tx.vout.length⟩) (fun o _ => hall o) ?_
    rintro - ⟨n, txout, heq, hget, -⟩
    rw [← (COutPoint.mk.inj heq).2, List.getElem?_eq_none le_rfl] at hget
    cases hget
  · exact h.setLocks hothers (hsafe hsame)

theorem sound_step (h : s.wtx.Sound env ctx s.w) {call : CreditCall} (hsafe : s.LockSafe env ctx call)
    {s' : CreditState} (hstep : s.step env ctx call = some s') : s'.wtx.Sound env ctx s'.w := by
  cases call with
  | markDirty =>
    obtain rfl := Option.some.inj hstep
    exact h.markDirty
  | bindWallet =>
    obtain rfl := Option.some.inj hstep
    exact h.markDirty
  | markSpent nOut =>
    obtain rfl := Option.some.inj hstep
    show ((s.wtx.markSpent nOut).getD s.wtx).Sound env ctx s.w
    cases hset : s.wtx.markSpent nOut with
    | none => exact h
    | some wtx => exact h.markSpent nOut true hset
  | markUnspent nOut =>
    obtain rfl := Option.some.inj hstep
    show ((s.wtx.markUnspent nOut).getD s.wtx).Sound env ctx s.w
    cases hset : s.wtx.markUnspent nOut with
    | none => exact h
    | some wtx => exact h.markSpent nOut false hset
  | updateSpent vfNewSpent =>
    obtain rfl := Option.some.inj hstep
    exact h.updateSpent vfNewSpent
  | lockCoin output =>
    obtain rfl := Option.some.inj hstep
    show s.wtx.Sound env ctx (s.w.lockCoin output)
    refine sound_setLocks output h rfl (fun o ho => ?_) fun hchanged => hsafe ?_
    · rw [mem_lockCoin, or_iff_right ho]
    · intro hmem
      exact hchanged (iff_of_true ((mem_lockCoin _ _ _).mpr (.inl rfl)) hmem)
  | unlockCoin output =>
    obtain rfl := Option.some.inj hstep
    show s.wtx.Sound env ctx (s.w.unlockCoin output)
    refine sound_setLocks output h rfl (fun o ho => ?_) fun hchanged => hsafe ?_
    · rw [mem_unlockCoin, and_iff_left ho]
    · by_contra hmem
      exact hchanged (iff_of_false (fun hnew => ((mem_unlockCoin _ _ _).mp hnew).2 rfl) hmem)
  | query q fUseCache =>
    obtain rfl := Option.some.inj hstep
    exact (CWalletTx.same_query h fUseCache fUseCache q).sound

/-- A change of a lock that a cached anonymizable credit depends on is seen by the next query. -/
theorem not_coherent_of_setLocks {w' : CWallet} (output : COutPoint) (h : s.wtx.Sound env ctx s.w)
    (hw' : w' = { s.w with setLockedCoins := w'.setLockedCoins })
    (hothers : ∀ o ≠ output, o ∈ w'.setLockedCoins ↔ o ∈ s.w.setLockedCoins)
    (hchanged : output ∈ w'.setLockedCoins ↔ output ∉ s.w.setLockedCoins)
    (hcached : s.wtx.cached .anonymizableCredit ≠ none)
    (hdepends : s.wtx.DependsOnLock env ctx s.w output) :
    ¬ { s with w := w' }.Coherent env ctx := by
  obtain ⟨value, hvalue⟩ := Option.ne_none_iff_exists'.mp hcached
  have hmature : s.wtx.isImmature ctx = false := by
    by_contra himmature
    exact hcached (h.immature (Bool.not_eq_false _ ▸ himmature))
  have hne : s.wtx.compute env ctx w' .anonymizableCredit ≠ some value := by
    rw [hw']
    exact CWalletTx.compute_ne_of_dependsOnLock hothers hchanged hdepends (h.cached _ _ hvalue)
  intro hcoherent
  have hquery := hcoherent .anonymizableCredit
  simp only [CWalletTx.query, hmature, Bool.false_eq_true, if_false, CWalletTx.cachedOr, if_true,
    hvalue] at hquery
  apply hne
  cases hcompute : s.wtx.compute env ctx w' .anonymizableCredit with
  | none => rw [hcompute] at hquery; cases hquery
  | some value' => rw [hcompute] at hquery; exact hquery.symm

theorem not_coherent_step (h : s.wtx.Sound env ctx s.w) {call : CreditCall}
    (hnotSafe : ¬ s.LockSafe env ctx call) :
    ∃ s', s.step env ctx call = some s' ∧ ¬ s'.Coherent env ctx := by
  cases call with
  | lockCoin output =>
    simp only [LockSafe, not_forall, not_not] at hnotSafe
    obtain ⟨hfree, hcached, hdepends⟩ := hnotSafe
    refine ⟨_, rfl, not_coherent_of_setLocks output h rfl (fun o ho => ?_) ?_ hcached hdepends⟩
    · rw [mem_lockCoin, or_iff_right ho]
    · exact iff_of_true ((mem_lockCoin _ _ _).mpr (.inl rfl)) hfree
  | unlockCoin output =>
    simp only [LockSafe, not_forall, not_not] at hnotSafe
    obtain ⟨hlocked, hcached, hdepends⟩ := hnotSafe
    refine ⟨_, rfl, not_coherent_of_setLocks output h rfl (fun o ho => ?_) ?_ hcached hdepends⟩
    · rw [mem_unlockCoin, and_iff_left ho]
    · exact iff_of_false (fun hnew => ((mem_unlockCoin _ _ _).mp hnew).2 rfl) fun hfree => hfree hlocked
  | _ => exact absurd trivial hnotSafe

/-- **The balance caches over a run.**  Starting with nothing cached, every query answers the same from
its cache as without, in every state, exactly if no lock is changed that a cached anonymizable credit
depends on. -/
theorem coherent_iff_everyStep (env : Env) (ctx : CreditCtx) (calls : List CreditCall) {s : CreditState}
    (h : s.wtx.cached = fun _ => none) :
    Run.Along (step env ctx) (Coherent env ctx) calls s ↔
      Run.EveryStep (step env ctx) (LockSafe env ctx) calls s := by
  have hsound : s.wtx.Sound env ctx s.w := by
    refine ⟨fun kind value hc => ?_, fun _ => by rw [h]⟩
    rw [h] at hc
    cases hc
  have hcoherent : ∀ {s : CreditState}, s.wtx.Sound env ctx s.w → s.Coherent env ctx := coherent_of_sound
  exact Run.along_iff_everyStep hcoherent (fun hs hsafe hstep => sound_step hs hsafe hstep)
    (fun hs hnotSafe => not_coherent_step hs hnotSafe) calls hsound

/-! ### A stale balance -/

/-- A chain of ten blocks above the transaction, and a wallet in which every script is its own. -/
def creditCtx : CreditCtx where
  isMine _ := ISMINE_SPENDABLE
  getDepthInMainChain _ _ := 10
  isInMainChain _ := true
  isFinalTx _ := true
  nCoinbaseMaturity := 100
  isChange _ := false

/-- Transaction 3 has an output of value 5. -/
def coinState : CreditState where
  wtx := { tx := { nTime := 3, vin := [{ prevout := ⟨1, 0⟩ }], vout := [{ nValue := 5, scriptPubKey := [] }] } }
  w := {}

/-- Queries with marks of spent outputs between them. -/
theorem coherent_marked : Run.Along (step timeEnv creditCtx) (Coherent timeEnv creditCtx)
    [.query .anonymizableCredit true, .query .availableCredit true, .markSpent 0, .markDirty] coinState :=
  (coherent_iff_everyStep timeEnv creditCtx _ rfl).mpr
    (Run.everyStep_of_forall _ fun call hcall s => by
      simp only [List.mem_cons, List.not_mem_nil, or_false] at hcall
      rcases hcall with rfl | rfl | rfl | rfl <;> trivial)

/-- The anonymizable credit is asked for, then the coin is locked: from the cache it is still 5. -/
theorem stale_after_lockCoin :
    (([.query .anonymizableCredit true, .lockCoin ⟨3, 0⟩].foldlM (step timeEnv creditCtx)
      coinState).map fun s =>
        ((s.wtx.query timeEnv creditCtx s.w true .anonymizableCredit).1,
          (s.wtx.query timeEnv creditCtx s.w false .anonymizableCredit).1)) =
      some (some 5, some 0) ∧
    ¬ Run.Along (step timeEnv creditCtx) (Coherent timeEnv creditCtx)
      [.query .anonymizableCredit true, .lockCoin ⟨3, 0⟩] coinState := by
  refine ⟨by decide, fun h => ?_⟩
  have hlast := h.last rfl .anonymizableCredit
  exact absurd hlast (by decide)

end CreditState

end Sphinx
