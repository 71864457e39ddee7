import Sphinx.Equiv.CreateTransaction

/-!
# Narrations

A payment with a narration has the outputs of the payee and of the narration, which is found by its position.

* `solver_narration`: the script of a narration is not a standard one;
* `createTransactionNarr_paired`: since its output has no value, no payment with a narration is made.
-/

namespace Sphinx

open CScript Checked

section Script

variable {sNarr : Valtype}

theorem getOp2_narration (pc : CScript) :
    getOp2 (UInt8.ofNat OP_RETURN :: pc) = ⟨true, OP_RETURN, [], pc⟩ ∧
    getOp2 (0x02 :: 0x6e :: 0x70 :: pc) = ⟨true, 2, [0x6e, 0x70], pc⟩ := by
  refine ⟨rfl, ?_⟩
  have hlen : ¬ (0x6e :: 0x70 :: pc).length < 2 := by simp
  rw [getOp2, if_pos (by decide), getPush]
  exact if_neg hlen

theorem narrationScript_eq (sNarr : Valtype) : narrationScript sNarr =
    UInt8.ofNat OP_RETURN :: 0x02 :: 0x6e :: 0x70 :: UInt8.ofNat OP_RETURN :: pushVch sNarr := rfl

theorem solver_narration (sNarr : Valtype) : (narrationScript sNarr).solver = none := by
  have hp2sh : (narrationScript sNarr).isPayToScriptHash = false := by
    have hfirst : ((narrationScript sNarr).getD 0 0).toNat ≠ OP_HASH160 := by
      rw [narrationScript_eq, List.getD_cons_zero]
      decide
    rw [isPayToScriptHash, decide_eq_false hfirst, Bool.and_false, Bool.false_and, Bool.false_and]
  have hmatch : ∀ tplate ∈ mTemplates, matchTemplate tplate.2 (narrationScript sNarr) [] = none := by
    intro tplate htplate
    rw [narrationScript_eq]
    simp only [mTemplates, List.mem_cons, List.not_mem_nil, or_false] at htplate
    rcases htplate with rfl | rfl | rfl | rfl | rfl
    · rw [matchTemplate, (getOp2_narration _).1]
      rfl
    · rw [matchTemplate, (getOp2_narration _).1]
      rfl
    · rw [matchTemplate, (getOp2_narration _).1]
      rfl
    -- `OP_SMALLDATA` takes the first push, and the rest is left over
    · rw [matchTemplate, (getOp2_narration _).1]
      show matchTemplate [OP_SMALLDATA] (0x02 :: 0x6e :: 0x70 :: UInt8.ofNat OP_RETURN :: pushVch sNarr) [] = none
      rw [matchTemplate, (getOp2_narration _).2]
      rfl
    · rw [matchTemplate, (getOp2_narration _).1]
      rfl
  have hscan : ∀ templates : List (Txnouttype × List Nat),
      (∀ tplate ∈ templates, matchTemplate tplate.2 (narrationScript sNarr) [] = none) →
      scanTemplates (narrationScript sNarr) templates = none := by
    intro templates
    induction templates with
    | nil => exact fun _ => rfl
    | cons tplate templates ih =>
      intro h
      obtain ⟨hhead, htail⟩ := List.forall_mem_cons.mp h
      rw [scanTemplates, hhead]
      exact ih htail
  rw [solver, hp2sh, if_neg Bool.false_ne_true, hscan _ hmatch]

end Script

theorem payeeOutput_narration (sNarr : Valtype) :
    payeeOutput (narrationScript sNarr, 0) = .error (.fail "Invalid scriptPubKey") := by
  unfold payeeOutput isOpReturn
  dsimp only
  rw [solver_narration]
  rfl

theorem payeeOutput_error {s : CScript × CAmount} {e : SendStop} (h : payeeOutput s = .error e) :
    ∃ strFailReason, e = .fail strFailReason := by
  -- every error of `isOpReturn` has a reason
  have hfail : ∀ {txout : CTxOut} {e : SendStop}, isOpReturn txout = .error e →
      ∃ strFailReason, e = .fail strFailReason := by
    intro txout e h
    unfold isOpReturn at h
    split_ifs at h
    cases hsolver : txout.scriptPubKey.solver with
    | none =>
      rw [hsolver] at h
      exact ⟨_, (Except.error.inj h).symm⟩
    | some r =>
      rw [hsolver] at h
      dsimp only at h
      split_ifs at h
      exact ⟨_, (Except.error.inj h).symm⟩
  unfold payeeOutput at h
  dsimp only at h
  cases hop : isOpReturn { nValue := s.2, scriptPubKey := s.1 } with
  | error e' =>
    rw [hop] at h
    rw [← Except.error.inj h]
    exact hfail hop
  | ok fOpReturn =>
    rw [hop] at h
    simp only [bind, Except.bind] at h
    split_ifs at h
    · exact ⟨_, (Except.error.inj h).symm⟩
    · cases h

section Payment

variable (env : Env) (ctx : SendCtx) (w : CWallet)

theorem mapM_payeeOutput_narration (s : CScript × CAmount) (sNarr : Valtype) :
    ∃ strFailReason, [s, (narrationScript sNarr, 0)].mapM payeeOutput = .error (.fail strFailReason) := by
  rw [List.mapM_cons]
  cases hs : payeeOutput s with
  | error e =>
    obtain ⟨strFailReason, rfl⟩ := payeeOutput_error hs
    exact ⟨strFailReason, rfl⟩
  | ok txout =>
    rw [List.mapM_cons, payeeOutput_narration]
    exact ⟨_, rfl⟩

theorem sumAmounts_error {e : SendStop} : ∀ {vecSend : List (CScript × CAmount)} {start : CAmount},
    sumAmounts vecSend start = .error e → ∃ strFailReason, e = .fail strFailReason := by
  intro vecSend
  induction vecSend with
  | nil =>
    intro start h
    unfold sumAmounts at h
    split_ifs at h
    exact ⟨_, (Except.error.inj h).symm⟩
  | cons s vecSend ih =>
    intro start h
    unfold sumAmounts at h
    split_ifs at h
    · exact ⟨_, (Except.error.inj h).symm⟩
    · exact ih h

/-- One round is enough to refuse the payment. -/
theorem createTransactionNarr_error (rounds : Nat) (random : Nat → SendRandom) (wtxNew : CWalletTx)
    (scriptPubKey : CScript) (nValue : CAmount) {sNarr : Valtype} (coinControl : Option CCoinControl)
    (hpos : 0 < sNarr.length) :
    ∃ strFailReason, createTransactionNarr env ctx w (rounds + 1) random wtxNew scriptPubKey nValue sNarr
      coinControl = some (.error (.fail strFailReason)) := by
  unfold createTransactionNarr
  dsimp only
  rw [if_pos hpos]
  unfold createTransaction
  dsimp only [List.singleton_append]
  rw [if_neg (by simp)]
  cases hsum : sumAmounts [(scriptPubKey, nValue), (narrationScript sNarr, 0)] 0 with
  | error e =>
    obtain ⟨strFailReason, rfl⟩ := sumAmounts_error hsum
    exact ⟨strFailReason, rfl⟩
  | ok nValue' =>
    obtain ⟨strFailReason, hmap⟩ := mapM_payeeOutput_narration (scriptPubKey, nValue) sNarr
    refine ⟨strFailReason, ?_⟩
    dsimp only
    rw [sendLoop, sendRound, buildSend, hmap]
    rfl

theorem createTransactionNarr_none (random : Nat → SendRandom) (wtxNew : CWalletTx) (scriptPubKey : CScript)
    (nValue : CAmount) {sNarr : Valtype} (coinControl : Option CCoinControl)
    (r : CWalletTx × CAmount) :
    createTransactionNarr env ctx w 0 random wtxNew scriptPubKey nValue sNarr coinControl ≠ some (.ok r) := by
  intro h
  unfold createTransactionNarr createTransaction at h
  dsimp only at h
  by_cases hempty : (if 0 < sNarr.length then [(scriptPubKey, nValue)] ++ [(narrationScript sNarr, 0)]
      else [(scriptPubKey, nValue)]).isEmpty = true
  · rw [if_pos hempty] at h
    cases h
  · rw [if_neg hempty] at h
    cases hsum : sumAmounts (if 0 < sNarr.length then [(scriptPubKey, nValue)] ++ [(narrationScript sNarr, 0)]
      else [(scriptPubKey, nValue)]) 0 with
    | error e =>
      rw [hsum] at h
      cases h
    | ok nValue' =>
      rw [hsum] at h
      cases h

/-- A call with a narration fails, and so the narration of a payment that is made comes after its payee. -/
theorem createTransactionNarr_paired (random : Nat → SendRandom) (wtxNew : CWalletTx) (scriptPubKey : CScript)
    (nValue : CAmount) (sNarr : Valtype) (coinControl : Option CCoinControl) (hpos : 0 < sNarr.length) :
    (∀ rounds, 0 < rounds → ∃ strFailReason, createTransactionNarr env ctx w rounds random wtxNew scriptPubKey
      nValue sNarr coinControl = some (.error (.fail strFailReason))) ∧
    ∀ (rounds : Nat) (wtx : CWalletTx) (nFeeRet : CAmount),
      createTransactionNarr env ctx w rounds random wtxNew scriptPubKey nValue sNarr coinControl =
        some (.ok (wtx, nFeeRet)) →
      ∃ j : Nat, wtx.tx.vout[j]? = some { nValue := nValue, scriptPubKey := scriptPubKey } ∧
        wtx.tx.vout[j + 1]? = some { nValue := 0, scriptPubKey := narrationScript sNarr } ∧
        ((j : Int), sNarr) ∈ plainNarrations wtx.tx := by
  have hfails := fun rounds =>
    createTransactionNarr_error env ctx w rounds random wtxNew scriptPubKey nValue coinControl hpos
  constructor
  · intro rounds hrounds
    obtain ⟨n, rfl⟩ : ∃ n, rounds = n + 1 := ⟨rounds - 1, by omega⟩
    exact hfails n
  · intro rounds wtx nFeeRet h
    cases rounds with
    | zero => exact absurd h (createTransactionNarr_none env ctx w random wtxNew scriptPubKey nValue coinControl _)
    | succ n =>
      obtain ⟨strFailReason, herror⟩ := hfails n
      rw [h] at herror
      cases herror

/-- A payment of 3 SPHX with the narration `hi`. -/
theorem createTransactionNarr_paired_sample :
    ∃ strFailReason, createTransactionNarr CWallet.timeEnv sendCtx sendWallet 1 (fun _ => sendRandom) emptySend
      redeemPubKey (3 * coin) [0x68, 0x69] none = some (.error (.fail strFailReason)) :=
  (createTransactionNarr_paired CWallet.timeEnv sendCtx sendWallet (fun _ => sendRandom) emptySend redeemPubKey
    (3 * coin) [0x68, 0x69] none (by decide)).1 1 Nat.one_pos

end Payment

end Sphinx
