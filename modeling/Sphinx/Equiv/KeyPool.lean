import Mathlib.Data.Int.Interval
import Mathlib.Data.Int.ConditionallyCompleteOrder
import Sphinx.KeyPool
import Sphinx.Util.Run

/-!
# Reservations and the key pool

A reservation holds an index outside `setKeyPool`, and `TopUpKeyPool` and `NewKeyPool` make new indices
from the set alone: the last index plus 1, and 1 when the set is empty or made anew.

* `KeyPoolState.inv_step`: what a call keeps if no reservation holds an index that it makes;
* `KeyPoolState.integrity_of_everyStep`: the pool over a run of such calls.
-/

namespace Sphinx

variable {w : KeyPoolWallet} {n : Nat} {keypool : CKeyPool}

/-- A key of the pool is handed out or kept. -/
inductive KeyUse
  | handed (vchPubKey : CPubKey)
  /-- The default key, with which `GetReservedKey` answers if the pool has no key for it. -/
  | fellBack (vchPubKey : CPubKey)
  | kept (vchPubKey : CPubKey)
deriving DecidableEq, Repr

/-- The wallet, the reservations that are alive at one time and the uses of keys, the last one first.  A
reservation is a `CReserveKey` or the two variables in which another caller has an index and its key. -/
structure KeyPoolState where
  wallet : KeyPoolWallet := {}
  reserves : Nat → CReserveKey := fun _ => {}
  uses : List KeyUse := []

inductive KeyPoolCall
  | topUpKeyPool (ctx : KeyPoolCtx) (nSize : Nat)
  | newKeyPool (ctx : KeyPoolCtx)
  | reserveKeyFromKeyPool (ctx : KeyPoolCtx) (r : Nat)
  | getKeyFromPool (ctx : KeyPoolCtx)
  | getOldestKeyPoolTime (ctx : KeyPoolCtx)
  | getReservedKey (ctx : KeyPoolCtx) (r : Nat)
  | keepKey (r : Nat)
  | returnKey (r : Nat)

def KeyPoolCall.ctx? : KeyPoolCall → Option KeyPoolCtx
  | .topUpKeyPool ctx _ => some ctx
  | .newKeyPool ctx => some ctx
  | .reserveKeyFromKeyPool ctx _ => some ctx
  | .getKeyFromPool ctx => some ctx
  | .getOldestKeyPoolTime ctx => some ctx
  | .getReservedKey ctx _ => some ctx
  | .keepKey _ => none
  | .returnKey _ => none

namespace KeyPoolState

open KeyPoolWallet

variable (getID : CPubKey → CKeyID)

section

variable (st : KeyPoolState)

def use (u : KeyUse) : KeyPoolState := { st with uses := u :: st.uses }

def put (r : Nat) (reserve : CReserveKey) : KeyPoolState :=
  { st with reserves := Function.update st.reserves r reserve }

/-- What the caller of `ReserveKeyFromKeyPool` sees of its end. -/
def reserved (outcome : Outcome Unit) (reserve : CReserveKey) : Option KeyPoolState :=
  match outcome with
  | .aborted => none
  | .threw => some st
  | .returned () => some (if reserve.nIndex = -1 then st else st.use (.handed reserve.vchPubKey))

/-- What the owner of the reservation sees of the end of `GetReservedKey`. -/
def got (r : Nat) (res : Outcome (Option CPubKey) × CReserveKey × KeyPoolWallet) :
    Option KeyPoolState :=
  let st := { st with wallet := res.2.2 }.put r res.2.1
  match res.1 with
  | .aborted => none
  | .threw => some st
  | .returned none => some st
  | .returned (some vchPubKey) =>
    some (st.use (if res.2.1.nIndex = -1 then .fellBack vchPubKey else .handed vchPubKey))

def gotKey (outcome : Outcome (Option CPubKey)) : Option KeyPoolState :=
  match outcome with
  | .aborted => none
  | .threw => some st
  | .returned none => some st
  | .returned (some vchPubKey) => some ((st.use (.handed vchPubKey)).use (.kept vchPubKey))

def keep (reserve : CReserveKey) : KeyPoolState :=
  if reserve.nIndex = -1 then st else st.use (.kept reserve.vchPubKey)

/-- One call; `none` if an assertion fails. -/
def step : KeyPoolCall → Option KeyPoolState
  | .topUpKeyPool ctx nSize => some { st with wallet := (st.wallet.topUpKeyPool getID ctx nSize).2 }
  | .newKeyPool ctx => some { st with wallet := (st.wallet.newKeyPool getID ctx).2 }
  | .reserveKeyFromKeyPool ctx r =>
    let res := st.wallet.reserveKeyFromKeyPool getID ctx
    let reserve : CReserveKey := { nIndex := res.nIndex, vchPubKey := res.keypool.vchPubKey }
    ({ st with wallet := res.wallet }.put r reserve).reserved res.outcome reserve
  | .getKeyFromPool ctx =>
    let got := st.wallet.getKeyFromPool getID ctx
    { st with wallet := got.2 }.gotKey got.1
  | .getOldestKeyPoolTime ctx =>
    let got := st.wallet.getOldestKeyPoolTime getID ctx
    if got.1 = .aborted then none else some { st with wallet := got.2 }
  | .getReservedKey ctx r =>
    st.got r ((st.reserves r).getReservedKey getID ctx st.wallet)
  | .keepKey r =>
    let kept := (st.reserves r).keepKey st.wallet
    some (({ st with wallet := kept.2 }.put r kept.1).keep (st.reserves r))
  | .returnKey r =>
    let returned := (st.reserves r).returnKey st.wallet
    some ({ st with wallet := returned.2 }.put r returned.1)

/-! ### Integrity, and the calls that keep it -/

def Holds (r : Nat) (i : Int) : Prop := (st.reserves r).nIndex = i ∧ i ≠ -1

end

instance (st : KeyPoolState) (r : Nat) (i : Int) : Decidable (st.Holds r i) :=
  inferInstanceAs (Decidable (_ ∧ _))

structure Integrity (st : KeyPoolState) : Prop where
  recorded : ∀ i ∈ st.wallet.setKeyPool, (st.wallet.pool i).isSome
  apart : ∀ r r' i, st.Holds r i → st.Holds r' i → r = r'
  notReused : st.uses.Pairwise fun later earlier =>
    ∀ vchPubKey, earlier = .kept vchPubKey → later ≠ .handed vchPubKey

/-- How many indices `TopUpKeyPool` makes. -/
def topUpCount (w : KeyPoolWallet) (ctx : KeyPoolCtx) (nSize : Nat) : Nat :=
  if ctx.fLocked then 0 else topUpSize ctx nSize - w.setKeyPool.card

/-- The first of the indices that a call makes, and their number. -/
def makes (st : KeyPoolState) : KeyPoolCall → Int × Nat
  | .topUpKeyPool ctx nSize => (st.wallet.nEnd, topUpCount st.wallet ctx nSize)
  | .newKeyPool ctx => (1, if ctx.fLocked then 0 else ctx.keypoolSize.toNat)
  | .reserveKeyFromKeyPool ctx _ => (st.wallet.nEnd, topUpCount st.wallet ctx 0)
  | .getKeyFromPool ctx => (st.wallet.nEnd, topUpCount st.wallet ctx 0)
  | .getOldestKeyPoolTime ctx => (st.wallet.nEnd, topUpCount st.wallet ctx 0)
  | .getReservedKey ctx r =>
    (st.wallet.nEnd, if (st.reserves r).nIndex = -1 then topUpCount st.wallet ctx 0 else 0)
  | .keepKey _ => (0, 0)
  | .returnKey _ => (0, 0)

/-- `ReserveKeyFromKeyPool` first forgets the index that its argument had. -/
def forget (st : KeyPoolState) : KeyPoolCall → KeyPoolState
  | .reserveKeyFromKeyPool _ r => st.put r {}
  | _ => st

/-- The first `n` keys that `MakeNewKey` makes are new to the wallet. -/
structure FreshKeys (w : KeyPoolWallet) (ctx : KeyPoolCtx) (n : Nat) : Prop where
  valid : ∀ i < n, CPubKey.isValid (ctx.newKey i) = true
  new : ∀ i < n, getID (ctx.newKey i) ∉ w.mapKeys
  injective : ∀ i < n, ∀ j < n, getID (ctx.newKey i) = getID (ctx.newKey j) → i = j

/-- No reservation holds an index that the call makes, and the keys that it makes are new. -/
structure CleanCall (st : KeyPoolState) (call : KeyPoolCall) : Prop where
  unheld : ∀ r i, (st.forget call).Holds r i →
    i ∉ Finset.Ico (st.makes call).1 ((st.makes call).1 + (st.makes call).2)
  /-- `GetKeyFromPool` can make one key that has no index. -/
  fresh : ∀ ctx ∈ call.ctx?, FreshKeys getID st.wallet ctx (max 1 (st.makes call).2)

/-! ### The invariant -/

/-- The index is in the set or with a reservation. -/
def InUse (st : KeyPoolState) (i : Int) : Prop := i ∈ st.wallet.setKeyPool ∨ ∃ r, st.Holds r i

def keyAt (st : KeyPoolState) (i : Int) : Option CPubKey := (st.wallet.pool i).map CKeyPool.vchPubKey

structure GoodKey (st : KeyPoolState) (vchPubKey : CPubKey) : Prop where
  valid : CPubKey.isValid vchPubKey = true
  known : getID vchPubKey ∈ st.wallet.mapKeys
  notKept : .kept vchPubKey ∉ st.uses

structure Inv (st : KeyPoolState) : Prop where
  pos : ∀ i, st.InUse i → 0 < i
  good : ∀ i, st.InUse i → ∃ vchPubKey, st.keyAt i = some vchPubKey ∧ st.GoodKey getID vchPubKey
  injective : ∀ i j, st.InUse i → st.InUse j → st.keyAt i = st.keyAt j → i = j
  held : ∀ r i, st.Holds r i → i ∉ st.wallet.setKeyPool ∧ st.keyAt i = some (st.reserves r).vchPubKey
  apart : ∀ r r' i, st.Holds r i → st.Holds r' i → r = r'
  keptKnown : ∀ vchPubKey, .kept vchPubKey ∈ st.uses → getID vchPubKey ∈ st.wallet.mapKeys
  notReused : st.uses.Pairwise fun later earlier =>
    ∀ vchPubKey, earlier = .kept vchPubKey → later ≠ .handed vchPubKey

variable {getID} {st st' : KeyPoolState} {ctx : KeyPoolCtx} {i : Int} {r : Nat} {vchPubKey : CPubKey}

theorem Inv.integrity (h : st.Inv getID) : st.Integrity := by
  refine ⟨fun i hi => ?_, h.apart, h.notReused⟩
  obtain ⟨vchPubKey, hkey, -⟩ := h.good i (.inl hi)
  rw [keyAt, Option.map_eq_some_iff] at hkey
  obtain ⟨keypool, hpool, -⟩ := hkey
  rw [hpool]
  rfl

/-- Indices go out of use, come back or move to a reservation, and no record of them changes. -/
theorem inv_of_inUse (h : st.Inv getID) (hkeys : st'.wallet.mapKeys = st.wallet.mapKeys)
    (huses : st'.uses = st.uses)
    (hsub : ∀ i, st'.InUse i → st.InUse i ∧ st'.keyAt i = st.keyAt i)
    (hheld : ∀ r i, st'.Holds r i →
      i ∉ st'.wallet.setKeyPool ∧ st'.keyAt i = some (st'.reserves r).vchPubKey)
    (hapart : ∀ r r' i, st'.Holds r i → st'.Holds r' i → r = r') : st'.Inv getID := by
  refine ⟨fun i hi => h.pos i (hsub i hi).1, fun i hi => ?_, fun i j hi hj heq => ?_, hheld, hapart, ?_, ?_⟩
  · obtain ⟨vchPubKey, hkey, hgood⟩ := h.good i (hsub i hi).1
    refine ⟨vchPubKey, (hsub i hi).2.trans hkey, hgood.valid, ?_, ?_⟩
    · rw [hkeys]; exact hgood.known
    · rw [huses]; exact hgood.notKept
  · rw [(hsub i hi).2, (hsub j hj).2] at heq
    exact h.injective i j (hsub i hi).1 (hsub j hj).1 heq
  · rw [huses, hkeys]; exact h.keptKnown
  · rw [huses]; exact h.notReused

/-- A use of a key: a handed key was not kept, and a kept key is at no index in use. -/
theorem Inv.used (h : st.Inv getID) {u : KeyUse}
    (hhanded : ∀ vchPubKey, u = .handed vchPubKey → .kept vchPubKey ∉ st.uses)
    (hkept : ∀ vchPubKey, u = .kept vchPubKey → getID vchPubKey ∈ st.wallet.mapKeys ∧
      ∀ i, st.InUse i → st.keyAt i ≠ some vchPubKey) : (st.use u).Inv getID := by
  refine ⟨h.pos, fun i hi => ?_, h.injective, h.held, h.apart, fun k hk => ?_, ?_⟩
  · obtain ⟨k, hkey, hgood⟩ := h.good i hi
    refine ⟨k, hkey, hgood.valid, hgood.known, fun hmem => ?_⟩
    rcases List.mem_cons.mp hmem with heq | hmem
    · exact (hkept k heq.symm).2 i hi hkey
    · exact hgood.notKept hmem
  · rcases List.mem_cons.mp hk with heq | hmem
    · exact (hkept k heq.symm).1
    · exact h.keptKnown k hmem
  · refine List.pairwise_cons.mpr ⟨fun earlier hmem k heq hu => ?_, h.notReused⟩
    exact hhanded k hu (heq ▸ hmem)

theorem Inv.handed (h : st.Inv getID) (hnot : .kept vchPubKey ∉ st.uses) :
    (st.use (.handed vchPubKey)).Inv getID :=
  h.used (fun _ heq => KeyUse.handed.inj heq ▸ hnot) fun _ heq => (nomatch heq)

theorem Inv.fellBack (h : st.Inv getID) : (st.use (.fellBack vchPubKey)).Inv getID :=
  h.used (fun _ heq => (nomatch heq)) fun _ heq => (nomatch heq)

theorem Inv.kept (h : st.Inv getID) (hknown : getID vchPubKey ∈ st.wallet.mapKeys)
    (hfree : ∀ i, st.InUse i → st.keyAt i ≠ some vchPubKey) : (st.use (.kept vchPubKey)).Inv getID :=
  h.used (fun _ heq => (nomatch heq)) fun _ heq => KeyUse.kept.inj heq ▸ ⟨hknown, hfree⟩

/-! ### New indices -/

/-- The keys from the `i`-th on are still new. -/
def FreshFrom (getID : CPubKey → CKeyID) (w : KeyPoolWallet) (ctx : KeyPoolCtx) (n i : Nat) : Prop :=
  ∀ j, i ≤ j → j < n → getID (ctx.newKey j) ∉ w.mapKeys

theorem lt_nEnd (w : KeyPoolWallet) : ∀ i ∈ w.setKeyPool, i < w.nEnd := by
  intro i hi
  have hne : w.setKeyPool.Nonempty := ⟨i, hi⟩
  have hmax := Finset.le_max' w.setKeyPool i hi
  rw [nEnd, dif_pos hne]
  omega

theorem nEnd_pos (h : st.Inv getID) : 0 < st.wallet.nEnd := by
  by_cases hne : st.wallet.setKeyPool.Nonempty
  · have hpos := h.pos _ (.inl (Finset.max'_mem st.wallet.setKeyPool hne))
    rw [nEnd, dif_pos hne]
    omega
  · rw [nEnd, dif_neg hne]
    omega

theorem nEnd_insert (w : KeyPoolWallet) (k : Nat) :
    (w.addNewKey getID ctx k w.nEnd).nEnd = w.nEnd + 1 := by
  have hne : (insert w.nEnd w.setKeyPool).Nonempty := ⟨w.nEnd, Finset.mem_insert_self _ _⟩
  have hmax : (insert w.nEnd w.setKeyPool).max' hne = w.nEnd := by
    apply le_antisymm
    · apply Finset.max'_le
      intro i hi
      rcases Finset.mem_insert.mp hi with rfl | hi
      · exact le_rfl
      · exact (lt_nEnd w i hi).le
    · exact Finset.le_max' _ _ (Finset.mem_insert_self _ _)
  show KeyPoolWallet.nEnd { w with setKeyPool := insert w.nEnd w.setKeyPool } = w.nEnd + 1
  rw [KeyPoolWallet.nEnd, dif_pos hne, hmax]

theorem card_addNewKey (w : KeyPoolWallet) (k : Nat) {i : Int} (hi : i ∉ w.setKeyPool) :
    (w.addNewKey getID ctx k i).setKeyPool.card = w.setKeyPool.card + 1 :=
  Finset.card_insert_of_notMem hi

theorem inv_addNewKey (h : st.Inv getID) (hi : 0 < i) (hfree : ¬ st.InUse i) {k : Nat}
    (hvalid : CPubKey.isValid (ctx.newKey k) = true) (hnew : getID (ctx.newKey k) ∉ st.wallet.mapKeys) :
    ({ st with wallet := st.wallet.addNewKey getID ctx k i } : KeyPoolState).Inv getID := by
  set st' : KeyPoolState := { st with wallet := st.wallet.addNewKey getID ctx k i } with hst'
  have hself : st'.keyAt i = some (ctx.newKey k) := by
    show (Function.update st.wallet.pool i _ i).map CKeyPool.vchPubKey = _
    rw [Function.update_self]
    rfl
  have hother : ∀ j, st.InUse j → st'.keyAt j = st.keyAt j := by
    intro j hj
    have hne : j ≠ i := fun heq => hfree (heq ▸ hj)
    show (Function.update st.wallet.pool i _ j).map CKeyPool.vchPubKey = _
    rw [Function.update_of_ne hne]
    rfl
  have hinUse : ∀ j, st'.InUse j → j = i ∨ st.InUse j := by
    rintro j (hj | hj)
    · exact (Finset.mem_insert.mp hj).imp_right .inl
    · exact .inr (.inr hj)
  have hnotHere : ∀ j, st.InUse j → st.keyAt j ≠ some (ctx.newKey k) := by
    intro j hj heq
    obtain ⟨vchPubKey, hkey, hgood⟩ := h.good j hj
    obtain rfl := Option.some.inj (heq.symm.trans hkey)
    exact hnew hgood.known
  have hknown : ∀ id ∈ st.wallet.mapKeys, id ∈ st'.wallet.mapKeys := fun _ => Finset.mem_insert_of_mem
  refine ⟨fun j hj => ?_, fun j hj => ?_, fun j j' hj hj' heq => ?_, fun r j hj => ?_, h.apart, ?_,
    h.notReused⟩
  · rcases hinUse j hj with rfl | hj
    · exact hi
    · exact h.pos j hj
  · rcases hinUse j hj with rfl | hj
    · exact ⟨_, hself, hvalid, Finset.mem_insert_self _ _, fun hkept => hnew (h.keptKnown _ hkept)⟩
    · obtain ⟨vchPubKey, hkey, hgood⟩ := h.good j hj
      exact ⟨vchPubKey, (hother j hj).trans hkey, hgood.valid, hknown _ hgood.known, hgood.notKept⟩
  · rcases hinUse j hj with rfl | hold <;> rcases hinUse j' hj' with rfl | hold'
    · rfl
    · rw [hself, hother j' hold'] at heq
      exact absurd heq.symm (hnotHere j' hold')
    · rw [hself, hother j hold] at heq
      exact absurd heq (hnotHere j hold)
    · rw [hother j hold, hother j' hold'] at heq
      exact h.injective j j' hold hold' heq
  · have hj' : st.InUse j := .inr ⟨r, hj⟩
    refine ⟨fun hmem => ?_, (hother j hj').trans (h.held r j hj).2⟩
    rcases Finset.mem_insert.mp hmem with rfl | hmem
    · exact hfree hj'
    · exact (h.held r j hj).1 hmem
  · exact fun vchPubKey hkept => hknown _ (h.keptKnown vchPubKey hkept)

theorem FreshKeys.mono {m : Nat} (h : FreshKeys getID w ctx n) (hle : m ≤ n) :
    FreshKeys getID w ctx m := by
  refine ⟨fun i hi => h.valid i (by omega), fun i hi => h.new i (by omega), fun i hi j hj => ?_⟩
  exact h.injective i (by omega) j (by omega)

theorem freshFrom_addNewKey {k : Nat} (h : FreshFrom getID w ctx n k)
    (hinj : ∀ i < n, ∀ j < n, getID (ctx.newKey i) = getID (ctx.newKey j) → i = j) (i : Int)
    (hk : k < n) :
    FreshFrom getID (w.addNewKey getID ctx k i) ctx n (k + 1) := by
  intro j hkj hjn hmem
  rcases Finset.mem_insert.mp hmem with heq | hmem
  · have := hinj j hjn k hk heq
    omega
  · exact h j (by omega) hjn hmem

/-- The loop of `TopUpKeyPool` makes the indices from `nEnd` on, one after the other. -/
theorem inv_topUpLoop {w0 : KeyPoolWallet} (hfresh : FreshKeys getID w0 ctx n) (nSize : Nat) :
    ∀ (fuel k : Nat) {st : KeyPoolState}, st.Inv getID →
      (∀ r i, st.Holds r i →
        i ∉ Finset.Ico st.wallet.nEnd (st.wallet.nEnd + (nSize - st.wallet.setKeyPool.card : Nat))) →
      FreshFrom getID st.wallet ctx n k → k + (nSize - st.wallet.setKeyPool.card) ≤ n →
      ({ st with wallet := topUpLoop getID ctx nSize fuel k st.wallet } : KeyPoolState).Inv getID := by
  intro fuel
  induction fuel with
  | zero => exact fun k st h _ _ _ => h
  | succ fuel ih =>
    intro k st h hunheld hfrom hn
    rw [topUpLoop]
    split
    · next hlt =>
      have hnot : st.wallet.nEnd ∉ st.wallet.setKeyPool := fun hmem => (lt_nEnd _ _ hmem).false
      have hcard := @card_addNewKey getID ctx st.wallet k _ hnot
      have hend := @nEnd_insert getID ctx st.wallet k
      have hfree : ¬ st.InUse st.wallet.nEnd := by
        rintro (hmem | ⟨r, hr⟩)
        · exact hnot hmem
        · exact hunheld r _ hr (Finset.mem_Ico.mpr ⟨le_rfl, by omega⟩)
      have hstep := inv_addNewKey h (nEnd_pos h) hfree (hfresh.valid k (by omega)) (hfrom k le_rfl (by omega))
      refine ih (k + 1) hstep (fun r i hr hmem => ?_)
        (freshFrom_addNewKey hfrom hfresh.injective _ (by omega)) ?_
      · refine hunheld r i hr ?_
        rw [Finset.mem_Ico] at hmem ⊢
        dsimp only at hmem
        rw [hcard, hend] at hmem
        omega
      · dsimp only
        rw [hcard]
        omega
    · exact h

theorem inv_topUpKeyPool (h : st.Inv getID) {nSize : Nat} (hfresh : FreshKeys getID st.wallet ctx n)
    (hn : topUpCount st.wallet ctx nSize ≤ n)
    (hunheld : ∀ r i, st.Holds r i →
        i ∉ Finset.Ico st.wallet.nEnd (st.wallet.nEnd + topUpCount st.wallet ctx nSize)) :
    ({ st with wallet := (st.wallet.topUpKeyPool getID ctx nSize).2 } : KeyPoolState).Inv getID := by
  unfold topUpCount at hn hunheld
  unfold topUpKeyPool
  split
  · exact h
  · next hlocked =>
    rw [if_neg hlocked] at hn hunheld
    exact inv_topUpLoop hfresh _ _ 0 h hunheld (fun j _ hj => hfresh.new j hj) (by omega)

theorem inv_clearPool (h : st.Inv getID) :
    ({ st with wallet := st.wallet.clearPool } : KeyPoolState).Inv getID := by
  have hkey : ∀ r i, st.Holds r i →
      ({ st with wallet := st.wallet.clearPool } : KeyPoolState).keyAt i = st.keyAt i := by
    intro r i hr
    show (if i ∈ st.wallet.setKeyPool then none else st.wallet.pool i).map CKeyPool.vchPubKey = _
    rw [if_neg (h.held r i hr).1]
    rfl
  refine inv_of_inUse h rfl rfl ?_ (fun r i hr => ⟨Finset.notMem_empty i, ?_⟩) h.apart
  · rintro i (hmem | ⟨r, hr⟩)
    · exact absurd hmem (Finset.notMem_empty i)
    · exact ⟨.inr ⟨r, hr⟩, hkey r i hr⟩
  · exact (hkey r i hr).trans (h.held r i hr).2

/-- The loop of `NewKeyPool` makes the indices from 1 on. -/
theorem inv_newKeyLoop (h : st.Inv getID) (hempty : st.wallet.setKeyPool = ∅)
    (hfresh : FreshKeys getID st.wallet ctx n)
    (hunheld : ∀ r i, st.Holds r i → i ∉ Finset.Ico 1 (1 + (n : Int))) :
    ∀ m ≤ n, ∀ w, (List.range m).foldl (fun w i => w.addNewKey getID ctx i (i + 1)) st.wallet = w →
      ({ st with wallet := w } : KeyPoolState).Inv getID ∧ (∀ i ∈ w.setKeyPool, i ≤ m) ∧
        FreshFrom getID w ctx n m := by
  intro m
  induction m with
  | zero =>
    rintro - w rfl
    refine ⟨h, fun i hi => ?_, fun j _ hj => hfresh.new j hj⟩
    rw [List.range_zero, List.foldl_nil, hempty] at hi
    exact absurd hi (Finset.notMem_empty i)
  | succ m ih =>
    rintro hm w rfl
    obtain ⟨hinv, hle, hfrom⟩ := ih (by omega) _ rfl
    rw [List.range_succ, List.foldl_append, List.foldl_cons, List.foldl_nil]
    refine ⟨inv_addNewKey hinv (by omega) ?_ (hfresh.valid m (by omega)) (hfrom m le_rfl (by omega)),
      fun i hi => ?_, freshFrom_addNewKey hfrom hfresh.injective _ (by omega)⟩
    · rintro (hmem | ⟨r, hr⟩)
      · have := hle _ hmem
        omega
      · exact hunheld r _ hr (Finset.mem_Ico.mpr ⟨by omega, by omega⟩)
    · rcases Finset.mem_insert.mp hi with rfl | hi
      · push_cast; exact le_rfl
      · have := hle i hi
        push_cast
        omega

theorem inv_newKeyPool (h : st.Inv getID) (hfresh : FreshKeys getID st.wallet ctx n)
    (hn : (st.makes (.newKeyPool ctx)).2 = n)
    (hunheld : ∀ r i, st.Holds r i → i ∉ Finset.Ico 1 (1 + (n : Int))) :
    ({ st with wallet := (st.wallet.newKeyPool getID ctx).2 } : KeyPoolState).Inv getID := by
  unfold newKeyPool
  dsimp only [makes] at hn ⊢
  split
  · exact inv_clearPool h
  · next hlocked =>
    rw [if_neg hlocked] at hn
    obtain rfl := hn
    have hcleared := inv_clearPool h
    exact (inv_newKeyLoop hcleared rfl ⟨hfresh.valid, hfresh.new, hfresh.injective⟩ hunheld _ le_rfl _ rfl).1

/-! ### Reservations -/

/-- If the invariant holds after the top-up, `ReserveKeyFromKeyPool` does not throw: it takes an index of the
set with its record, or the set is empty. -/
theorem reserveKeyFromKeyPool_spec (h : ({ st with wallet := w } : KeyPoolState).Inv getID)
    (hw : (st.wallet.topUpKeyPool getID ctx 0).2 = w) {res : Reserved}
    (hres : st.wallet.reserveKeyFromKeyPool getID ctx = res) :
    res.outcome = .returned () ∧
      ((res.nIndex = -1 ∧ w.setKeyPool = ∅ ∧ res.wallet = w) ∨
        (res.nIndex ∈ w.setKeyPool ∧ w.pool res.nIndex = some res.keypool ∧
          res.wallet = w.eraseIndex res.nIndex)) := by
  subst hres
  unfold reserveKeyFromKeyPool
  dsimp only
  rw [hw]
  split
  · next hne =>
    have hmem := w.setKeyPool.min'_mem hne
    obtain ⟨vchPubKey, hkey, hgood⟩ := h.good _ (.inl hmem)
    rw [keyAt, Option.map_eq_some_iff] at hkey
    obtain ⟨keypool, hpool, rfl⟩ := hkey
    dsimp only at hpool
    have hknown : getID keypool.vchPubKey ∈ (w.eraseIndex (w.setKeyPool.min' hne)).mapKeys := hgood.known
    have hread : (w.eraseIndex (w.setKeyPool.min' hne)).pool (w.setKeyPool.min' hne) = some keypool := hpool
    rw [hread]
    dsimp only
    rw [if_neg (not_not.mpr hknown), if_pos hgood.valid]
    exact ⟨rfl, .inr ⟨hmem, hpool, rfl⟩⟩
  · next hne => exact ⟨rfl, .inl ⟨rfl, Finset.not_nonempty_iff_eq_empty.mp hne, rfl⟩⟩

theorem put_reserves_self (reserve : CReserveKey) : (st.put r reserve).reserves r = reserve :=
  Function.update_self _ _ _

theorem put_reserves_of_ne {r' : Nat} (h : r' ≠ r) (reserve : CReserveKey) :
    (st.put r reserve).reserves r' = st.reserves r' := Function.update_of_ne h _ _

theorem holds_put {r' : Nat} {j : Int} {reserve : CReserveKey} (h : (st.put r reserve).Holds r' j) :
    (r' = r ∧ reserve.nIndex = j) ∨ (r' ≠ r ∧ st.Holds r' j) := by
  obtain ⟨heq, hne⟩ := h
  by_cases hr : r' = r
  · subst hr
    rw [put_reserves_self] at heq
    exact .inl ⟨rfl, heq⟩
  · rw [put_reserves_of_ne hr] at heq
    exact .inr ⟨hr, heq, hne⟩

theorem holds_put_none {r' : Nat} {j : Int} {vchPubKey : CPubKey}
    (h : (st.put r { nIndex := -1, vchPubKey := vchPubKey }).Holds r' j) : r' ≠ r ∧ st.Holds r' j := by
  rcases holds_put h with ⟨-, heq⟩ | hold
  · exact absurd heq.symm h.2
  · exact hold

theorem inv_put_none (h : st.Inv getID) (r : Nat) (vchPubKey : CPubKey) :
    (st.put r { nIndex := -1, vchPubKey := vchPubKey }).Inv getID := by
  have hold : ∀ r' j, (st.put r { nIndex := -1, vchPubKey := vchPubKey }).Holds r' j →
      r' ≠ r ∧ st.Holds r' j := fun _ _ => holds_put_none
  refine inv_of_inUse h rfl rfl ?_ (fun r' j hr' => ?_) fun r1 r2 j h1 h2 => ?_
  · rintro j (hmem | ⟨r', hr'⟩)
    · exact ⟨.inl hmem, rfl⟩
    · exact ⟨.inr ⟨r', (hold r' j hr').2⟩, rfl⟩
  · obtain ⟨hne, hr⟩ := hold r' j hr'
    rw [put_reserves_of_ne hne]
    exact h.held r' j hr
  · exact h.apart r1 r2 j (hold r1 j h1).2 (hold r2 j h2).2

/-- An index goes from the set to a reservation. -/
theorem inv_take (h : st.Inv getID) (hmem : i ∈ st.wallet.setKeyPool)
    (hpool : st.wallet.pool i = some keypool) (r : Nat) :
    (({ st with wallet := st.wallet.eraseIndex i } : KeyPoolState).put r
      { nIndex := i, vchPubKey := keypool.vchPubKey }).Inv getID := by
  have hnone : ∀ r', ¬ st.Holds r' i := fun r' hr' => (h.held r' i hr').1 hmem
  have hkey : st.keyAt i = some keypool.vchPubKey := by rw [keyAt, hpool]; rfl
  refine inv_of_inUse h rfl rfl ?_ (fun r' j hr' => ?_) fun r1 r2 j h1 h2 => ?_
  · rintro j (hmem' | ⟨r', hr'⟩)
    · exact ⟨.inl (Finset.mem_of_mem_erase hmem'), rfl⟩
    · rcases holds_put hr' with ⟨-, rfl⟩ | ⟨-, hr'⟩
      · exact ⟨.inl hmem, rfl⟩
      · exact ⟨.inr ⟨r', hr'⟩, rfl⟩
  · rcases holds_put hr' with ⟨rfl, rfl⟩ | ⟨hne, hr'⟩
    · rw [put_reserves_self]
      exact ⟨Finset.notMem_erase i _, hkey⟩
    · rw [put_reserves_of_ne hne]
      exact ⟨fun hmem' => (h.held r' j hr').1 (Finset.mem_of_mem_erase hmem'), (h.held r' j hr').2⟩
  · rcases holds_put h1 with ⟨rfl, rfl⟩ | ⟨-, hold1⟩ <;>
      rcases holds_put h2 with ⟨rfl, heq⟩ | ⟨-, hold2⟩
    · rfl
    · exact absurd hold2 (hnone r2)
    · have heq : i = j := heq
      rw [← heq] at hold1
      exact absurd hold1 (hnone r1)
    · exact h.apart r1 r2 j hold1 hold2

theorem inv_returnKey (h : st.Inv getID) (hr : st.Holds r i) :
    (({ st with wallet := st.wallet.returnKey i } : KeyPoolState).put r {}).Inv getID := by
  have hold : ∀ r' j, (({ st with wallet := st.wallet.returnKey i } : KeyPoolState).put r {}).Holds r' j →
      r' ≠ r ∧ st.Holds r' j := fun _ _ => holds_put_none
  refine inv_of_inUse h rfl rfl ?_ (fun r' j hr' => ?_) fun r1 r2 j h1 h2 => ?_
  · rintro j (hmem | ⟨r', hr'⟩)
    · rcases Finset.mem_insert.mp hmem with rfl | hmem
      · exact ⟨.inr ⟨r, hr⟩, rfl⟩
      · exact ⟨.inl hmem, rfl⟩
    · exact ⟨.inr ⟨r', (hold r' j hr').2⟩, rfl⟩
  · obtain ⟨hne, hj⟩ := hold r' j hr'
    rw [put_reserves_of_ne hne]
    refine ⟨fun hmem => ?_, (h.held r' j hj).2⟩
    rcases Finset.mem_insert.mp hmem with heq | hmem
    · exact hne (h.apart r' r i (heq ▸ hj) hr)
    · exact (h.held r' j hj).1 hmem
  · exact h.apart r1 r2 j (hold r1 j h1).2 (hold r2 j h2).2

theorem pool_keepKey (w : KeyPoolWallet) {j : Int} (h : j ≠ i) : (w.keepKey i).pool j = w.pool j := by
  unfold KeyPoolWallet.keepKey
  split
  · exact Function.update_of_ne h _ _
  · rfl

theorem setKeyPool_keepKey (w : KeyPoolWallet) : (w.keepKey i).setKeyPool = w.setKeyPool := by
  unfold KeyPoolWallet.keepKey
  split <;> rfl

theorem mapKeys_keepKey (w : KeyPoolWallet) : (w.keepKey i).mapKeys = w.mapKeys := by
  unfold KeyPoolWallet.keepKey
  split <;> rfl

/-- The key at an index is kept, which goes out of use. -/
theorem inv_kept (h : st.Inv getID) (hi : st.InUse i) (hkey : st.keyAt i = some vchPubKey)
    (hkeys : st'.wallet.mapKeys = st.wallet.mapKeys) (huses : st'.uses = st.uses)
    (hsub : ∀ j, st'.InUse j → j ≠ i ∧ st.InUse j)
    (hpool : ∀ j, j ≠ i → st'.wallet.pool j = st.wallet.pool j)
    (hset : ∀ j ∈ st'.wallet.setKeyPool, j ∈ st.wallet.setKeyPool)
    (hreserves : ∀ r j, st'.Holds r j → st.Holds r j ∧ st'.reserves r = st.reserves r) :
    (st'.use (.kept vchPubKey)).Inv getID := by
  have hkeyAt : ∀ j, st'.InUse j → st'.keyAt j = st.keyAt j := by
    intro j hj
    rw [keyAt, hpool j (hsub j hj).1, keyAt]
  have h' : st'.Inv getID := by
    refine inv_of_inUse h hkeys huses (fun j hj => ⟨(hsub j hj).2, hkeyAt j hj⟩) (fun r j hr => ?_)
      fun r1 r2 j h1 h2 => h.apart r1 r2 j (hreserves r1 j h1).1 (hreserves r2 j h2).1
    obtain ⟨hold, hsame⟩ := hreserves r j hr
    rw [hkeyAt j (.inr ⟨r, hr⟩), hsame]
    exact ⟨fun hmem => (h.held r j hold).1 (hset j hmem), (h.held r j hold).2⟩
  obtain ⟨vchPubKey', hkey', hgood⟩ := h.good i hi
  obtain rfl := Option.some.inj (hkey.symm.trans hkey')
  refine h'.kept (hkeys ▸ hgood.known) fun j hj heq => ?_
  rw [hkeyAt j hj] at heq
  exact (hsub j hj).1 (h.injective j i (hsub j hj).2 hi (heq.trans hkey.symm))

theorem inv_keepKey (h : st.Inv getID) (hr : st.Holds r i) :
    ((({ st with wallet := st.wallet.keepKey i } : KeyPoolState).put r {}).use
      (.kept (st.reserves r).vchPubKey)).Inv getID := by
  set st' := ({ st with wallet := st.wallet.keepKey i } : KeyPoolState).put r {} with hst'
  have hset : st'.wallet.setKeyPool = st.wallet.setKeyPool := setKeyPool_keepKey _
  have hold : ∀ r' j, st'.Holds r' j → r' ≠ r ∧ st.Holds r' j := fun _ _ => holds_put_none
  refine inv_kept h (.inr ⟨r, hr⟩) (h.held r i hr).2 (mapKeys_keepKey _) rfl ?_ (fun j hj => pool_keepKey _ hj)
    (fun j hj => hset ▸ hj) fun r' j hr' => ?_
  · rintro j (hmem | ⟨r', hr'⟩)
    · rw [hset] at hmem
      exact ⟨fun heq => (h.held r i hr).1 (heq ▸ hmem), .inl hmem⟩
    · obtain ⟨hne, hr'⟩ := hold r' j hr'
      exact ⟨fun heq => hne (h.apart r' r j hr' (heq ▸ hr)), .inr ⟨r', hr'⟩⟩
  · obtain ⟨hne, hr'⟩ := hold r' j hr'
    exact ⟨hr', put_reserves_of_ne hne _⟩

/-! ### The calls -/

/-- The top-up of a call that makes no other indices. -/
theorem inv_topUp (h : st.Inv getID) (hfresh : FreshKeys getID st.wallet ctx (max 1 n))
    (hn : topUpCount st.wallet ctx 0 = n)
    (hunheld : ∀ r i, st.Holds r i → i ∉ Finset.Ico st.wallet.nEnd (st.wallet.nEnd + n)) :
    ({ st with wallet := (st.wallet.topUpKeyPool getID ctx 0).2 } : KeyPoolState).Inv getID := by
  subst hn
  exact inv_topUpKeyPool h hfresh (le_max_right _ _) hunheld

section

variable (h : st.Inv getID) (hmem : i ∈ st.wallet.setKeyPool)

include h hmem

theorem goodKey_of_mem
    (hpool : st.wallet.pool i = some keypool) : st.GoodKey getID keypool.vchPubKey := by
  obtain ⟨vchPubKey, hkey, hgood⟩ := h.good i (.inl hmem)
  rw [keyAt, hpool] at hkey
  exact Option.some.inj hkey ▸ hgood

theorem ne_of_mem : i ≠ -1 := by
  have := h.pos i (.inl hmem)
  omega

/-- What `ReserveKeyFromKeyPool` takes goes to a reservation and is handed out. -/
theorem inv_taken
    (hpool : st.wallet.pool i = some keypool) (r : Nat) :
    ((({ st with wallet := st.wallet.eraseIndex i } : KeyPoolState).put r
      { nIndex := i, vchPubKey := keypool.vchPubKey }).use (.handed keypool.vchPubKey)).Inv getID :=
  (inv_take h hmem hpool r).handed (goodKey_of_mem h hmem hpool).notKept

end

theorem put_put (w : KeyPoolWallet) (reserve reserve' : CReserveKey) :
    ({ st.put r reserve with wallet := w } : KeyPoolState).put r reserve' =
      ({ st with wallet := w } : KeyPoolState).put r reserve' := by
  simp only [put, Function.update_idem]

theorem inv_reserveKeyFromKeyPool (h : st.Inv getID)
    (hclean : st.CleanCall getID (.reserveKeyFromKeyPool ctx r))
    (hstep : st.step getID (.reserveKeyFromKeyPool ctx r) = some st') : st'.Inv getID := by
  set w := (st.wallet.topUpKeyPool getID ctx 0).2 with hw
  set res := st.wallet.reserveKeyFromKeyPool getID ctx with hres
  have htop : ({ st.put r {} with wallet := w } : KeyPoolState).Inv getID :=
    inv_topUp (inv_put_none h r []) (hclean.fresh ctx rfl) rfl hclean.unheld
  obtain ⟨houtcome, hcases⟩ := reserveKeyFromKeyPool_spec htop hw.symm hres.symm
  simp only [step, reserved, ← hres, houtcome, Option.some.injEq] at hstep
  rcases hcases with ⟨hnone, -, hwallet⟩ | ⟨hmem, hpool, hwallet⟩
  · rw [if_pos hnone, hnone, hwallet] at hstep
    subst hstep
    have hput := inv_put_none htop r res.keypool.vchPubKey
    rwa [put_put] at hput
  · rw [if_neg (ne_of_mem htop hmem), hwallet] at hstep
    subst hstep
    have htaken := inv_taken htop hmem hpool r
    rwa [put_put] at htaken

/-- `GetReservedKey` answers with the key that the reservation has now. -/
theorem inv_reservedKey {reserve : CReserveKey}
    (h : (({ st with wallet := w } : KeyPoolState).put r reserve).Inv getID)
    (hnot : reserve.nIndex ≠ -1 → .kept reserve.vchPubKey ∉ st.uses)
    (hstep : st.got r (reserve.reservedKey w) = some st') : st'.Inv getID := by
  unfold CReserveKey.reservedKey at hstep
  split at hstep
  · obtain rfl := Option.some.inj hstep
    split
    · exact h.fellBack
    · next hindex => exact h.handed (hnot hindex)
  · cases hstep

theorem inv_getReservedKey (h : st.Inv getID) (hclean : st.CleanCall getID (.getReservedKey ctx r))
    (hstep : st.step getID (.getReservedKey ctx r) = some st') : st'.Inv getID := by
  simp only [step, CReserveKey.getReservedKey] at hstep
  split at hstep
  · next hindex =>
    set w := (st.wallet.topUpKeyPool getID ctx 0).2 with hw
    set res := st.wallet.reserveKeyFromKeyPool getID ctx with hres
    have htop : ({ st with wallet := w } : KeyPoolState).Inv getID := by
      refine inv_topUp h (hclean.fresh ctx rfl) ?_ hclean.unheld
      rw [makes, if_pos hindex]
    obtain ⟨houtcome, hcases⟩ := reserveKeyFromKeyPool_spec htop hw.symm hres.symm
    simp only [houtcome] at hstep
    rcases hcases with ⟨hnone, -, hwallet⟩ | ⟨hmem, hpool, hwallet⟩
    · rw [if_neg (not_not.mpr hnone), hwallet] at hstep
      split at hstep
      · exact inv_reservedKey (inv_put_none htop r _) (fun hne => absurd rfl hne) hstep
      · obtain rfl := Option.some.inj hstep
        exact inv_put_none htop r _
    · rw [if_pos (ne_of_mem htop hmem), hwallet] at hstep
      exact inv_reservedKey (inv_take htop hmem hpool r)
        (fun _ => (goodKey_of_mem htop hmem hpool).notKept) hstep
  · next hindex =>
    refine inv_reservedKey (w := st.wallet) ?_ (fun hne => ?_) hstep
    · have hsame : (({ st with wallet := st.wallet } : KeyPoolState).put r (st.reserves r)) = st := by
        rw [put, Function.update_eq_self]
      rwa [hsame]
    · obtain ⟨vchPubKey, hkey, hgood⟩ := h.good _ (.inr ⟨r, rfl, hne⟩)
      have hheld := (h.held r _ ⟨rfl, hne⟩).2
      exact Option.some.inj (hheld.symm.trans hkey) ▸ hgood.notKept

theorem le_card_topUpLoop (nSize : Nat) : ∀ (fuel k : Nat) (w : KeyPoolWallet),
    nSize ≤ fuel + w.setKeyPool.card → nSize ≤ (topUpLoop getID ctx nSize fuel k w).setKeyPool.card := by
  intro fuel
  induction fuel with
  | zero =>
    intro k w hle
    rw [topUpLoop]
    omega
  | succ fuel ih =>
    intro k w hle
    rw [topUpLoop]
    split
    · apply ih
      rw [card_addNewKey w k fun hmem => (lt_nEnd w _ hmem).false]
      omega
    · omega

theorem topUpKeyPool_of_empty {nSize : Nat} (hempty : (w.topUpKeyPool getID ctx nSize).2.setKeyPool = ∅) :
    (w.topUpKeyPool getID ctx nSize).2 = w := by
  unfold topUpKeyPool at hempty ⊢
  split
  · rfl
  · next hlocked =>
    rw [if_neg hlocked] at hempty
    have hle := @le_card_topUpLoop getID ctx (topUpSize ctx nSize) _ 0 w (Nat.le_add_right _ _)
    dsimp only at hempty
    rw [hempty, Finset.card_empty, Nat.le_zero] at hle
    dsimp only
    rw [hle, topUpLoop]

theorem inv_generateNewKey (h : st.Inv getID) {k : Nat} (hnew : getID (ctx.newKey k) ∉ st.wallet.mapKeys) :
    ((({ st with wallet := (st.wallet.generateNewKey getID ctx k).2 } : KeyPoolState).use
      (.handed (ctx.newKey k))).use (.kept (ctx.newKey k))).Inv getID := by
  have hgrown : ({ st with wallet := (st.wallet.generateNewKey getID ctx k).2 } : KeyPoolState).Inv getID := by
    refine ⟨h.pos, fun i hi => ?_, h.injective, h.held, h.apart, fun key hkept => ?_, h.notReused⟩
    · obtain ⟨key, hkey, hgood⟩ := h.good i hi
      exact ⟨key, hkey, hgood.valid, Finset.mem_insert_of_mem hgood.known, hgood.notKept⟩
    · exact Finset.mem_insert_of_mem (h.keptKnown key hkept)
  refine (hgrown.handed fun hkept => hnew (h.keptKnown _ hkept)).kept (Finset.mem_insert_self _ _) fun i hi heq => ?_
  obtain ⟨key, hkey, hgood⟩ := h.good i hi
  obtain rfl := Option.some.inj (heq.symm.trans hkey)
  exact hnew hgood.known

/-- An index of the set is taken and its key is kept. -/
theorem inv_takeAndKeep (h : st.Inv getID) (hmem : i ∈ st.wallet.setKeyPool)
    (hpool : st.wallet.pool i = some keypool) :
    ((({ st with wallet := (st.wallet.eraseIndex i).keepKey i } : KeyPoolState).use
      (.handed keypool.vchPubKey)).use (.kept keypool.vchPubKey)).Inv getID := by
  have hkey : st.keyAt i = some keypool.vchPubKey := by rw [keyAt, hpool]; rfl
  set w := st.wallet.eraseIndex i with hw
  have hset : (w.keepKey i).setKeyPool = st.wallet.setKeyPool.erase i := setKeyPool_keepKey w
  refine inv_kept (h.handed (goodKey_of_mem h hmem hpool).notKept) (.inl hmem) hkey (mapKeys_keepKey w) rfl ?_
    (fun j hj => pool_keepKey w hj) (fun j hj => ?_) fun r j hr => ⟨hr, rfl⟩
  · rintro j (hj | ⟨r, hr⟩)
    · have hj : j ∈ (w.keepKey i).setKeyPool := hj
      rw [hset, Finset.mem_erase] at hj
      exact ⟨hj.1, .inl hj.2⟩
    · exact ⟨fun heq => (h.held r j hr).1 (heq ▸ hmem), .inr ⟨r, hr⟩⟩
  · have hj : j ∈ (w.keepKey i).setKeyPool := hj
    rw [hset] at hj
    exact Finset.mem_of_mem_erase hj

theorem inv_getKeyFromPool (h : st.Inv getID) (hclean : st.CleanCall getID (.getKeyFromPool ctx))
    (hstep : st.step getID (.getKeyFromPool ctx) = some st') : st'.Inv getID := by
  have hfresh := hclean.fresh ctx rfl
  have htop := inv_topUp h hfresh rfl hclean.unheld
  obtain ⟨houtcome, hcases⟩ := reserveKeyFromKeyPool_spec htop rfl rfl
  simp only [step, getKeyFromPool, houtcome] at hstep
  rcases hcases with ⟨hnone, hempty, hwallet⟩ | ⟨hmem, hpool, hwallet⟩
  · rw [if_pos hnone, hwallet] at hstep
    split at hstep
    · obtain rfl := Option.some.inj hstep
      exact htop
    · rw [topUpKeyPool_of_empty hempty] at hstep
      obtain rfl := Option.some.inj hstep
      exact inv_generateNewKey h (hfresh.new 0 (by omega))
  · rw [if_neg (ne_of_mem htop hmem), hwallet] at hstep
    obtain rfl := Option.some.inj hstep
    exact inv_takeAndKeep htop hmem hpool

theorem getOldestKeyPoolTime_spec (h : ({ st with wallet := w } : KeyPoolState).Inv getID)
    (hw : (st.wallet.topUpKeyPool getID ctx 0).2 = w) :
    ∃ nTime, st.wallet.getOldestKeyPoolTime getID ctx = (.returned nTime, w) := by
  obtain ⟨houtcome, hcases⟩ := reserveKeyFromKeyPool_spec h hw rfl
  simp only [getOldestKeyPoolTime, houtcome]
  rcases hcases with ⟨hnone, -, hwallet⟩ | ⟨hmem, -, hwallet⟩
  · rw [if_pos hnone, hwallet]
    exact ⟨_, rfl⟩
  · rw [if_neg (ne_of_mem h hmem), hwallet, returnKey, eraseIndex, Finset.insert_erase hmem]
    exact ⟨_, rfl⟩

theorem inv_getOldestKeyPoolTime (h : st.Inv getID) (hclean : st.CleanCall getID (.getOldestKeyPoolTime ctx))
    (hstep : st.step getID (.getOldestKeyPoolTime ctx) = some st') : st'.Inv getID := by
  have htop := inv_topUp h (hclean.fresh ctx rfl) rfl hclean.unheld
  obtain ⟨nTime, htime⟩ := getOldestKeyPoolTime_spec htop rfl
  simp only [step, htime] at hstep
  rw [if_neg (fun heq => nomatch heq)] at hstep
  exact Option.some.inj hstep ▸ htop

theorem inv_step (h : st.Inv getID) {call : KeyPoolCall} (hclean : st.CleanCall getID call)
    (hstep : st.step getID call = some st') : st'.Inv getID := by
  cases call with
  | topUpKeyPool ctx nSize =>
    obtain rfl := Option.some.inj hstep
    exact inv_topUpKeyPool h (hclean.fresh ctx rfl) (le_max_right _ _) hclean.unheld
  | newKeyPool ctx =>
    obtain rfl := Option.some.inj hstep
    exact inv_newKeyPool h ((hclean.fresh ctx rfl).mono (le_max_right _ _)) rfl hclean.unheld
  | reserveKeyFromKeyPool ctx r => exact inv_reserveKeyFromKeyPool h hclean hstep
  | getKeyFromPool ctx => exact inv_getKeyFromPool h hclean hstep
  | getOldestKeyPoolTime ctx => exact inv_getOldestKeyPoolTime h hclean hstep
  | getReservedKey ctx r => exact inv_getReservedKey h hclean hstep
  | keepKey r =>
    obtain rfl := Option.some.inj hstep
    dsimp only [CReserveKey.keepKey, keep]
    by_cases hindex : (st.reserves r).nIndex = -1
    · rw [if_pos hindex, if_neg (not_not.mpr hindex)]
      exact inv_put_none h r []
    · rw [if_neg hindex, if_pos hindex]
      exact inv_keepKey h ⟨rfl, hindex⟩
  | returnKey r =>
    obtain rfl := Option.some.inj hstep
    dsimp only [CReserveKey.returnKey]
    by_cases hindex : (st.reserves r).nIndex = -1
    · rw [if_neg (not_not.mpr hindex)]
      exact inv_put_none h r []
    · rw [if_pos hindex]
      exact inv_returnKey h ⟨rfl, hindex⟩

/-- **Key pool integrity**: every index of the set has a record, no two reservations hold one index and no
kept key is handed out again, in every state of a run in which no call makes an index that a reservation
holds. -/
theorem integrity_of_everyStep (getID : CPubKey → CKeyID) (calls : List KeyPoolCall) {st : KeyPoolState}
    (h : st.Inv getID) (hcalls : Run.EveryStep (step getID) (CleanCall getID) calls st) :
    Run.Along (step getID) Integrity calls st :=
  Run.along_of_everyStep Inv.integrity (fun hst hclean hstep => inv_step hst hclean hstep) calls h hcalls

/-! ### An index that is made twice -/

/-- The key that `MakeNewKey` makes as the `i`-th of the call is `n + i`. -/
def countCtx (nKeypool : Int) (n : Nat) : KeyPoolCtx where
  nKeypool := some nKeypool
  newKey i := [UInt8.ofNat (n + i)]

def headID (vchPubKey : CPubKey) : CKeyID := (vchPubKey.headD 0).toNat

theorem inv_empty : ({} : KeyPoolState).Inv getID := by
  have hnone : ∀ i, ¬ ({} : KeyPoolState).InUse i := by
    rintro i (hmem | ⟨r, heq, hne⟩)
    · exact Finset.notMem_empty i hmem
    · exact hne heq.symm
  refine ⟨fun i hi => absurd hi (hnone i), fun i hi => absurd hi (hnone i), fun i _ hi => absurd hi (hnone i),
    fun r i hr => absurd (.inr ⟨r, hr⟩) (hnone i), fun r r' i hr => absurd (.inr ⟨r, hr⟩) (hnone i),
    fun k hk => absurd hk List.not_mem_nil, List.Pairwise.nil⟩

/-- Two reservations, of which the first is kept and the second returned. -/
theorem integrity_two : Run.Along (step headID) Integrity
    [.getReservedKey (countCtx 1 1) 0, .getReservedKey (countCtx 1 3) 1, .keepKey 0, .returnKey 1] {} := by
  refine integrity_of_everyStep headID _ inv_empty ⟨⟨fun r i hr => ?_, ?_⟩, fun st1 hst1 => ?_⟩
  · exact absurd hr.1.symm hr.2
  · rintro ctx ⟨⟩
    exact ⟨by decide, by decide, by decide⟩
  · obtain rfl := Option.some.inj hst1
    refine ⟨⟨fun r i hr => ?_, ?_⟩, fun st2 hst2 => ?_⟩
    · rcases holds_put hr with ⟨-, heq⟩ | ⟨-, heq, hne⟩
      · rw [← heq]
        decide
      · exact absurd heq.symm hne
    · rintro ctx ⟨⟩
      exact ⟨by decide, by decide, by decide⟩
    · refine ⟨⟨fun r i _ => Finset.notMem_empty i, fun ctx hctx => (nomatch hctx)⟩, fun st3 hst3 => ?_⟩
      exact ⟨⟨fun r i _ => Finset.notMem_empty i, fun ctx hctx => (nomatch hctx)⟩, fun _ _ => trivial⟩

/-- With `-keypool=0` the second reservation empties the pool again and gets index 1 too, with a new record.
What the first returns is the index of the second; the key that is kept under it is handed out once more, and
the index comes back without a record. -/
theorem reused_with_keypool_zero :
    (∃ st, [KeyPoolCall.getReservedKey (countCtx 0 1) 0, .getReservedKey (countCtx 0 2) 1].foldlM
        (step headID) {} = some st ∧ st.Holds 0 1 ∧ st.Holds 1 1) ∧
    (∃ st, [KeyPoolCall.getReservedKey (countCtx 0 1) 0, .getReservedKey (countCtx 0 2) 1, .returnKey 0,
        .getReservedKey (countCtx 0 3) 2, .keepKey 1, .getReservedKey (countCtx 0 3) 2,
        .returnKey 2].foldlM (step headID) {} = some st ∧
      st.uses = [.handed [2], .kept [2], .handed [2], .handed [2], .handed [1]] ∧
      1 ∈ st.wallet.setKeyPool ∧ st.wallet.pool 1 = none) ∧
    ¬ ∀ (getID : CPubKey → CKeyID) (calls : List KeyPoolCall), Run.Along (step getID) Integrity calls {} := by
  refine ⟨⟨_, rfl, ?_, ?_⟩, ⟨_, rfl, ?_, ?_, ?_⟩, fun h => ?_⟩
  · decide
  · decide
  · decide
  · decide
  · decide
  · have hlast := (h headID [.getReservedKey (countCtx 0 1) 0, .getReservedKey (countCtx 0 2) 1]).last rfl
    have heq := hlast.apart 0 1 1 ⟨rfl, by decide⟩ ⟨rfl, by decide⟩
    cases heq

end KeyPoolState

end Sphinx
