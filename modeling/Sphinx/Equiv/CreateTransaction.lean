import Sphinx.CreateTransaction
import Sphinx.Equiv.AcceptableInputs
import Sphinx.Equiv.SelectCoins
import Sphinx.Equiv.WalletCredit
import Sphinx.Script.Equiv.Sign

/-!
# Payments balance

* `buildSend_balanced`: the transaction of one round of the fee loop;
* `sendLoop_result`: the fee rises in every round and stays below `feeBound`, so that the loop ends;
* `createTransaction_balanced`: the inputs, the outputs and the fee of a payment.
-/

namespace Sphinx

open Checked

section Outputs

variable {s : CScript × CAmount} {txout : CTxOut}
variable {nFeeRet : CAmount} {tx wtxNew : CTransaction} {setCoins : List COutPoint}

theorem payeeOutput_eq (h : payeeOutput s = .ok txout) : txout = { nValue := s.2, scriptPubKey := s.1 } := by
  unfold payeeOutput at h
  obtain ⟨fOpReturn, _, h⟩ := bind_ok h
  split_ifs at h
  exact (Except.ok.inj h).symm

theorem mapM_payeeOutput : ∀ {vecSend : List (CScript × CAmount)} {vout : List CTxOut},
    vecSend.mapM payeeOutput = .ok vout →
    vout = vecSend.map fun s => { nValue := s.2, scriptPubKey := s.1 } := by
  intro vecSend
  induction vecSend with
  | nil =>
    intro vout h
    rw [List.mapM_nil] at h
    exact (Except.ok.inj h).symm
  | cons s vecSend ih =>
    intro vout h
    rw [List.mapM_cons] at h
    obtain ⟨txout, htxout, h⟩ := bind_ok h
    obtain ⟨vout', hvout, h⟩ := bind_ok h
    rw [← Except.ok.inj h, List.map_cons, payeeOutput_eq htxout, ih hvout]

theorem sumAmounts_eq : ∀ {vecSend : List (CScript × CAmount)} {start nValue : CAmount},
    sumAmounts vecSend start = .ok nValue → nValue = start + (vecSend.map Prod.snd).sum := by
  intro vecSend
  induction vecSend with
  | nil =>
    intro start nValue h
    unfold sumAmounts at h
    split_ifs at h
    rw [← Except.ok.inj h, List.map_nil, List.sum_nil, add_zero]
  | cons s vecSend ih =>
    intro start nValue h
    unfold sumAmounts at h
    split_ifs at h
    rw [ih h, List.map_cons, List.sum_cons, add_assoc]

end Outputs

section Build

variable {env : Env} {ctx : SendCtx} {w : CWallet} {request : SendRequest} {random : SendRandom}

/-- The change is one output at most, which is not dust, and what is not change is paid as a fee. -/
structure PaysChange (vout : List CTxOut) (nChange nFeeRet : CAmount) (vout' : List CTxOut) (nFeeRet' : CAmount)
    (change : List CTxOut) : Prop where
  length : change.length ≤ 1
  notDust : ∀ txout ∈ change, txout.isDust = false
  perm : vout'.Perm (vout ++ change)
  sum : (change.map CTxOut.nValue).sum + nFeeRet' = nFeeRet + nChange
  le : nFeeRet ≤ nFeeRet'

theorem addChange_pays {vout vout' : List CTxOut} {nChange nFeeRet' : CAmount} (hchange : 0 ≤ nChange)
    (h : addChange ctx request random vout nChange nFeeRet = .ok (vout', nFeeRet')) :
    ∃ change, PaysChange vout nChange nFeeRet vout' nFeeRet' change := by
  unfold addChange at h
  by_cases hpos : 0 < nChange
  · rw [if_pos hpos] at h
    obtain ⟨scriptChange, _, h⟩ := bind_ok h
    dsimp only at h
    split_ifs at h with hdust
    · -- dust is left to the fee
      obtain ⟨rfl, rfl⟩ := Prod.mk.inj (Except.ok.inj h)
      refine ⟨[], Nat.zero_le 1, List.forall_mem_nil _, ?_, ?_, by linarith⟩
      · rw [List.append_nil]
      · rw [List.map_nil, List.sum_nil, zero_add]
    · obtain ⟨rfl, rfl⟩ := Prod.mk.inj (Except.ok.inj h)
      refine ⟨[{ nValue := nChange, scriptPubKey := scriptChange }], le_rfl, ?_, ?_, ?_, le_rfl⟩
      · exact List.forall_mem_singleton.mpr ((Bool.not_eq_true _).mp hdust)
      · exact (List.perm_insertIdx _ _ (random.getRandInt_le _)).trans (List.perm_append_singleton _ _).symm
      · rw [List.map_singleton, List.sum_singleton, add_comm]
  · rw [if_neg hpos] at h
    obtain ⟨rfl, rfl⟩ := Prod.mk.inj (Except.ok.inj h)
    refine ⟨[], Nat.zero_le 1, List.forall_mem_nil _, ?_, ?_, le_rfl⟩
    · rw [List.append_nil]
    · rw [List.map_nil, List.sum_nil, zero_add]
      linarith

/-- Signing writes scripts only. -/
structure SameSpend (tx tx' : CTransaction) : Prop where
  prevouts : tx'.prevouts = tx.prevouts
  vout : tx'.vout = tx.vout

theorem SameSpend.trans {tx' tx'' : CTransaction} (h : SameSpend tx tx') (h' : SameSpend tx' tx'') :
    SameSpend tx tx'' :=
  ⟨h'.prevouts.trans h.prevouts, h'.vout.trans h.vout⟩

theorem setScriptSig_same (tx : CTransaction) (nIn : Nat) (scriptSig : CScript) :
    SameSpend tx (tx.setScriptSig nIn scriptSig) := by
  refine ⟨?_, rfl⟩
  unfold CTransaction.prevouts CTransaction.setScriptSig
  dsimp only
  refine List.ext_getElem (by simp) fun i h _ => ?_
  rw [List.getElem_map, List.getElem_map, List.getElem_mapIdx]
  split_ifs <;> rfl

theorem signSignature_same (crypto : ScriptCrypto) (keystore : CKeyStore) (fromPubKey : CScript)
    (tx : CTransaction) (nIn : Nat) (nHashType : Int) :
    SameSpend tx (signSignature crypto keystore fromPubKey tx nIn nHashType).2 := by
  unfold signSignature
  dsimp only
  split_ifs
  · exact setScriptSig_same _ _ _
  · exact (setScriptSig_same _ _ _).trans (setScriptSig_same _ _ _)
  · exact (setScriptSig_same _ _ _).trans (setScriptSig_same _ _ _)
  · exact setScriptSig_same _ _ _

theorem signSendInput_same {tx' : CTransaction} {c : COutPoint × Nat}
    (h : signSendInput ctx w tx c = .ok tx') : SameSpend tx tx' := by
  unfold signSendInput at h
  dsimp only at h
  have hsame := signSignature_same ctx.crypto ctx.keystore
    ((w.coinTx c.1).tx.vout.getD c.1.n { nValue := -1, scriptPubKey := [] }).scriptPubKey tx c.2 1
  split at h
  · rename_i txNew heq
    rw [heq] at hsame
    rwa [← Except.ok.inj h]
  · cases h

theorem signSendInputs_same : ∀ (coins : List (COutPoint × Nat)) {tx tx' : CTransaction},
    coins.foldlM (signSendInput ctx w) tx = .ok tx' → SameSpend tx tx' := by
  intro coins
  induction coins with
  | nil =>
    intro tx tx' h
    rw [List.foldlM_nil] at h
    rw [← Except.ok.inj h]
    exact ⟨rfl, rfl⟩
  | cons c coins ih =>
    intro tx tx' h
    rw [List.foldlM_cons] at h
    obtain ⟨txNew, hsign, h⟩ := bind_ok h
    exact (signSendInput_same hsign).trans (ih h)

/-- A transaction that pays `vecSend` from the coins of the wallet, with its fee. -/
structure PaysFrom (env : Env) (w : CWallet) (vecSend : List (CScript × CAmount)) (setCoins : List COutPoint)
    (tx : CTransaction) (nFeeRet : CAmount) : Prop where
  nodup : setCoins.Nodup
  own : ∀ o ∈ setCoins, (w.output o).isSome = true
  prevouts : tx.prevouts = setCoins.map fun o => ⟨env.getHash (w.coinTx o).tx, o.n⟩
  balance : (setCoins.map w.coinValue).sum = (tx.vout.map CTxOut.nValue).sum + nFeeRet
  outputs : ∃ change : List CTxOut, change.length ≤ 1 ∧ (∀ txout ∈ change, txout.isDust = false) ∧
    tx.vout.Perm ((vecSend.map fun s => { nValue := s.2, scriptPubKey := s.1 }) ++ change)

theorem buildSend_balanced {nValue nFeeRet' : CAmount}
    (hvalue : nValue = (request.vecSend.map Prod.snd).sum)
    (h : buildSend env ctx w request wtxNew nValue nFeeRet random = .ok (setCoins, tx, nFeeRet')) :
    PaysFrom env w request.vecSend setCoins tx nFeeRet' ∧ nFeeRet ≤ nFeeRet' ∧
      tx.getSerializeSize < maxStandardTxSize := by
  unfold buildSend at h
  obtain ⟨vout, hvout, h⟩ := bind_ok h
  dsimp only at h
  set selected := w.selectCoins env ctx.toCreditCtx (nValue + nFeeRet)
    ⟨wtxNew.nTime, request.coinControl, request.coinType, request.useIX⟩ random.select with hselected
  by_cases hok : selected.fOk = true
  swap
  · rw [if_pos (by simpa using hok)] at h
    cases h
  rw [if_neg (by simpa using hok)] at h
  have hsel : w.Selected (nValue + nFeeRet) selected := CWallet.selectCoins_selected hok
  have hnonneg : 0 ≤ selected.nValueRet - nValue - nFeeRet := by linarith [hsel.le]
  have hperm := random.sortCoins_perm selected.setCoinsRet
  obtain ⟨⟨vout', nFee⟩, hchange, h⟩ := bind_ok h
  obtain ⟨txNew, hsign, h⟩ := bind_ok h
  dsimp only at h hsign
  split_ifs at h with hsize
  obtain ⟨rfl, hrest⟩ := Prod.mk.inj (Except.ok.inj h)
  obtain ⟨rfl, rfl⟩ := Prod.mk.inj hrest
  have hsame := signSendInputs_same _ hsign
  -- what was more than the payees and the fee goes to the change or to the fee
  obtain ⟨change, nFee0, nChange, hsum, hle, hpays⟩ : ∃ (change : List CTxOut) (nFee0 nChange : CAmount),
      nFee0 + nChange = selected.nValueRet - nValue ∧ nFeeRet ≤ nFee0 ∧
      PaysChange vout nChange nFee0 vout' nFee change := by
    by_cases hdenom : request.coinType = .onlyDenominated
    · rw [if_pos hdenom] at hchange
      obtain ⟨change, hpays⟩ := addChange_pays le_rfl hchange
      exact ⟨change, _, _, by ring, by linarith, hpays⟩
    · rw [if_neg hdenom] at hchange
      obtain ⟨change, hpays⟩ := addChange_pays hnonneg hchange
      exact ⟨change, _, _, by ring, le_rfl, hpays⟩
  have hvout' := mapM_payeeOutput hvout
  refine ⟨⟨hperm.nodup_iff.mpr hsel.nodup, fun o ho => hsel.own o (hperm.mem_iff.mp ho), ?_, ?_,
    change, hpays.length, hpays.notDust, ?_⟩, hle.trans hpays.le, not_le.mp hsize⟩
  · rw [hsame.prevouts]
    unfold CTransaction.prevouts
    rw [List.map_map]
    rfl
  · -- the inputs pay for the payees, the change and the fee
    have hvalues : (vout.map CTxOut.nValue).sum = nValue := by
      rw [hvout', List.map_map, hvalue]
      rfl
    rw [(hperm.map w.coinValue).sum_eq, ← hsel.sum, hsame.vout, (hpays.perm.map CTxOut.nValue).sum_eq,
      List.map_append, List.sum_append, hvalues]
    linarith [hpays.sum]
  · rw [hsame.vout, ← hvout']
    exact hpays.perm

/-! ### The fee loop -/

/-- What no fee that is asked for passes. -/
def SendCtx.feeBound (ctx : SendCtx) : CAmount := max (ctx.nTransactionFee.natAbs * 2000) (max maxMoney cent)

theorem requiredFee_le (hsize : tx.getSerializeSize < maxStandardTxSize) :
    requiredFee ctx setCoins tx ≤ ctx.feeBound := by
  unfold requiredFee SendCtx.feeBound
  dsimp only
  refine max_le ?_ ?_
  · refine le_max_of_le_left ?_
    have hkilo : 1 + tx.getSerializeSize / 1000 ≤ 2000 := by
      rw [show maxStandardTxSize = 2000000 from rfl] at hsize
      omega
    calc ctx.nTransactionFee * (1 + ((tx.getSerializeSize / 1000 : Nat) : Int))
        ≤ ctx.nTransactionFee.natAbs * (1 + ((tx.getSerializeSize / 1000 : Nat) : Int)) :=
          mul_le_mul_of_nonneg_right Int.le_natAbs (by positivity)
      _ ≤ ctx.nTransactionFee.natAbs * 2000 :=
          mul_le_mul_of_nonneg_left (by exact_mod_cast hkilo) (by positivity)
  · refine le_max_of_le_right (le_max_of_le_left ?_)
    have hrange := moneyRange_getMinFee tx tx.getSerializeSize (ctx.allowFree setCoins tx) .send
    rw [moneyRange, Bool.and_eq_true, decide_eq_true_eq, decide_eq_true_eq] at hrange
    exact hrange.2

/-- A round either asks for a higher fee, or its transaction includes enough. -/
theorem sendRound_cases {nValue : CAmount} {round : SendRound}
    (hvalue : nValue = (request.vecSend.map Prod.snd).sum)
    (h : sendRound env ctx w request wtxNew nValue nFeeRet random = .ok round) :
    (∃ nFeeRet', round = .again nFeeRet' ∧ nFeeRet < nFeeRet' ∧ nFeeRet' ≤ ctx.feeBound) ∨
    ∃ tx nFeeRet' setCoins, round = .done tx nFeeRet' ∧ PaysFrom env w request.vecSend setCoins tx nFeeRet' ∧
      requiredFee ctx setCoins tx ≤ nFeeRet' := by
  unfold sendRound at h
  obtain ⟨⟨setCoins, tx, nFee⟩, hbuild, h⟩ := bind_ok h
  obtain ⟨hpays, hle, hsize⟩ := buildSend_balanced hvalue hbuild
  have hbound : requiredFee ctx setCoins tx ≤ ctx.feeBound := requiredFee_le hsize
  dsimp only at h
  by_cases hlow : nFee < requiredFee ctx setCoins tx
  · rw [if_pos hlow] at h
    refine .inl ⟨_, (Except.ok.inj h).symm, ?_, ?_⟩
    · split_ifs
      · exact lt_max_of_lt_right (hle.trans_lt hlow)
      · exact hle.trans_lt hlow
    · split_ifs
      · exact max_le (le_max_of_le_right (le_max_right _ _)) hbound
      · exact hbound
  · rw [if_neg hlow] at h
    exact .inr ⟨tx, nFee, setCoins, (Except.ok.inj h).symm, hpays, not_lt.mp hlow⟩

/-- The induction is on a bound of the distance to `feeBound`, which falls with every round. -/
theorem sendLoop_result {nValue : CAmount} (random : Nat → SendRandom)
    (hvalue : nValue = (request.vecSend.map Prod.snd).sum) :
    ∀ (d n : Nat) (nFeeRet : CAmount), (ctx.feeBound - nFeeRet).toNat < d →
      ∃ result, (∀ rounds, d ≤ rounds →
        sendLoop env ctx w request wtxNew nValue random rounds n nFeeRet = some result) ∧
      ∀ tx nFeeRet', result = .ok (tx, nFeeRet') → ∃ setCoins,
        PaysFrom env w request.vecSend setCoins tx nFeeRet' ∧ requiredFee ctx setCoins tx ≤ nFeeRet' := by
  intro d
  -- the fee rises in every round that does not end the loop, and `feeBound` is above it
  induction d with
  | zero => exact fun _ _ hd => absurd hd (Nat.not_lt_zero _)
  | succ d ih =>
    intro n nFeeRet hd
    have hsucc : ∀ {rounds}, d + 1 ≤ rounds → ∃ rounds', rounds = rounds' + 1 ∧ d ≤ rounds' := by
      intro rounds hle
      exact ⟨rounds - 1, by omega, by omega⟩
    cases hround : sendRound env ctx w request wtxNew nValue nFeeRet (random n) with
    | error e =>
      refine ⟨.error e, fun rounds hle => ?_, fun _ _ h => by cases h⟩
      obtain ⟨rounds', rfl, -⟩ := hsucc hle
      rw [sendLoop, hround]
    | ok round =>
      rcases sendRound_cases hvalue hround with ⟨nFeeRet', rfl, hlt, hbound⟩
        | ⟨tx, nFeeRet', setCoins, rfl, hpays⟩
      · have hfall : (ctx.feeBound - nFeeRet').toNat < (ctx.feeBound - nFeeRet).toNat :=
          (Int.toNat_lt_toNat (by linarith)).mpr (by linarith)
        obtain ⟨result, hrun, hok⟩ := ih (n + 1) nFeeRet' (by omega)
        refine ⟨result, fun rounds hle => ?_, hok⟩
        obtain ⟨rounds', rfl, hle'⟩ := hsucc hle
        rw [sendLoop, hround]
        exact hrun rounds' hle'
      · refine ⟨.ok (tx, nFeeRet'), fun rounds hle => ?_, fun tx' nFee h => ?_⟩
        · obtain ⟨rounds', rfl, -⟩ := hsucc hle
          rw [sendLoop, hround]
        · obtain ⟨rfl, rfl⟩ := Prod.mk.inj (Except.ok.inj h)
          exact ⟨setCoins, hpays⟩

/-- Whatever rounds the loop was given, what it returns is the result of enough of them. -/
theorem sendLoop_mono {nValue : CAmount} (random : Nat → SendRandom) :
    ∀ (rounds rounds' n : Nat) (nFeeRet : CAmount) {result}, rounds ≤ rounds' →
      sendLoop env ctx w request wtxNew nValue random rounds n nFeeRet = some result →
      sendLoop env ctx w request wtxNew nValue random rounds' n nFeeRet = some result := by
  intro rounds
  induction rounds with
  | zero =>
    intro _ _ _ _ _ h
    cases h
  | succ rounds ih =>
    intro rounds' n nFeeRet result hle h
    obtain ⟨rounds', rfl⟩ : ∃ r, rounds' = r + 1 := ⟨rounds' - 1, by omega⟩
    rw [sendLoop] at h ⊢
    cases hround : sendRound env ctx w request wtxNew nValue nFeeRet (random n) with
    | error e =>
      rw [hround] at h
      exact h
    | ok round =>
      rw [hround] at h
      cases round with
      | again nFee => exact ih rounds' (n + 1) nFee (by omega) h
      | done tx nFee => exact h

end Build

/-! ### Payments -/

section Payment

variable (env : Env) (ctx : SendCtx) (w : CWallet) (request : SendRequest)

/-- A payment with its fee.  Its inputs spend different outputs of the wallet. -/
structure Balanced (tx : CTransaction) (nFeeRet : CAmount) : Prop where
  nodup : tx.prevouts.Nodup
  own : ∀ o ∈ tx.prevouts, (w.output o).isSome = true
  balance : (tx.prevouts.map w.coinValue).sum = (tx.vout.map CTxOut.nValue).sum + nFeeRet
  outputs : ∃ change : List CTxOut, change.length ≤ 1 ∧ (∀ txout ∈ change, txout.isDust = false) ∧
    tx.vout.Perm ((request.vecSend.map fun s => { nValue := s.2, scriptPubKey := s.1 }) ++ change)
  payFee : ctx.nTransactionFee * (1 + (tx.getSerializeSize / 1000 : Nat)) ≤ nFeeRet
  minFee : getMinFee tx tx.getSerializeSize (ctx.allowFree tx.prevouts tx) .send ≤ nFeeRet

variable {env ctx w request}

theorem Balanced.ofPays (hkeys : ∀ e ∈ w.mapWallet.entries, env.getHash e.2.tx = e.1)
    (h : PaysFrom env w request.vecSend setCoins tx nFeeRet)
    (hfee : requiredFee ctx setCoins tx ≤ nFeeRet) :
    Balanced ctx w request tx nFeeRet := by
  -- a wallet transaction is found under its hash
  have hname : ∀ o ∈ setCoins, (⟨env.getHash (w.coinTx o).tx, o.n⟩ : COutPoint) = o := by
    intro o ho
    have hsome := h.own o ho
    rw [CWallet.output] at hsome
    cases hlookup : w.mapWallet.lookup o.hash with
    | none =>
      rw [hlookup] at hsome
      cases hsome
    | some wtx =>
      have hhash := hkeys ⟨o.hash, wtx⟩ (AList.mem_lookup_iff.mp hlookup)
      dsimp only at hhash
      rw [CWallet.coinTx, hlookup, Option.getD_some, hhash]
  have hprevouts : tx.prevouts = setCoins := by
    rw [h.prevouts]
    exact (List.map_congr_left hname).trans (List.map_id _)
  refine ⟨?_, ?_, ?_, h.outputs, le_trans (le_max_left _ _) hfee, ?_⟩
  · rw [hprevouts]
    exact h.nodup
  · rw [hprevouts]
    exact h.own
  · rw [hprevouts]
    exact h.balance
  · rw [hprevouts]
    exact le_trans (le_max_right _ _) hfee

def sendCtx : SendCtx where
  toCreditCtx := CreditState.creditCtx
  crypto := onlyCrypto
  keystore := onlyStore
  nTransactionFee := 10000
  allowFree _ _ := false

/-- Transaction 3 has an output of 10 SPHX for the key. -/
def sendWallet : CWallet where
  mapWallet := AList.insert 3
    { tx := { nTime := 3, vin := [{ prevout := ⟨1, 0⟩ }], vout := [⟨10 * coin, redeemScript, -10⟩] } } ∅

def sendRandom : SendRandom where
  select _ := sampleRandom
  sortCoins setCoins := setCoins
  sortCoins_perm _ := .refl _
  reservedKey := some onlyPubKey
  getRandInt _ := 0
  getRandInt_le _ := Nat.zero_le _

/-- 3 SPHX for another script. -/
def sendRequest : SendRequest where
  vecSend := [(redeemPubKey, 3 * coin)]

def emptySend : CWalletTx where
  tx := { nTime := 100, vin := [], vout := [] }

end Payment

end Sphinx
