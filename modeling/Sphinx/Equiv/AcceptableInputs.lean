import Sphinx.AcceptToMemoryPool
import Sphinx.Equiv.ConnectBlock

/-!
# The dry run against the real check

`AcceptableInputs` and `AcceptToMemoryPool` share all their checks but the fee rules, the standardness of
the transaction, the place of its parents and its signatures.

* `acceptToMemoryPoolWith_isOk_iff`, `acceptableInputs_isOk_iff`: the two functions as the shared checks,
  the fee rules and, for the first one, the rest;
* `dryRunAgrees_iff`: they agree but for the limit on insane fees and the mixing transactions that this
  node broadcasts.
-/

namespace Sphinx

variable {env : Env} {ctx : Ctx} {node : Node} {tx : CTransaction} {args : FeeArgs}
variable {posThisTx : CDiskTxPos} {fValidateSig fLimited : Bool} {flags : Nat} {mapInputs : MapPrevTx}
  {nFees : CAmount}

theorem isOk_bind_iff {ε α β : Type} {x : Except ε α} {f : α → Except ε β} :
    (x >>= f).isOk = true ↔ ∃ a, x = .ok a ∧ (f a).isOk = true := by
  rcases x with e | a
  · exact iff_of_false Bool.false_ne_true fun ⟨_, ha, _⟩ => by cases ha
  · constructor
    · intro h
      exact ⟨a, rfl, h⟩
    · rintro ⟨a', ha, h⟩
      obtain rfl := Except.ok.inj ha
      exact h

@[simp] theorem isOk_rejectIf {bad : Bool} {nDoS : Nat} {text : String} :
    (rejectIf bad nDoS text).isOk = true ↔ bad = false := by
  cases bad <;> simp [rejectIf, Except.isOk, Except.toBool]

/-! ### Fees -/

theorem moneyRange_replaced (nValue : CAmount) :
    moneyRange (if !moneyRange nValue then maxMoney else nValue) = true := by
  cases hrange : moneyRange nValue with
  | true => exact hrange
  | false => exact (by decide : moneyRange maxMoney = true)

theorem moneyRange_getMinFee (tx : CTransaction) (nBytes : Nat) (fAllowFree : Bool) (mode : GetMinFeeMode) :
    moneyRange (getMinFee tx nBytes fAllowFree mode) = true := moneyRange_replaced _

theorem relayFee_nonneg (tx : CTransaction) : 0 ≤ relayFee tx := by
  have hrange := moneyRange_getMinFee tx tx.getSerializeSize true .relay
  rw [moneyRange, Bool.and_eq_true, decide_eq_true_eq] at hrange
  exact hrange.1

theorem dryRunFees_isOk_iff (isDSTX fLimited : Bool) (nFees : CAmount) :
    (dryRunFees args isDSTX fLimited tx nFees).isOk = true ↔
      (isDSTX || args.highEnough fLimited (relayFee tx) nFees) = true ∧
        ¬(args.fRejectInsaneFee = true ∧ relayFee tx * 10000 < nFees) := by
  simp only [dryRunFees, isOk_bind_iff, isOk_rejectIf, rejectIf_eq_ok, FeeArgs.highEnough]
  cases isDSTX with
  | true => simp
  | false => cases args.fLimitFree <;> cases fLimited <;> simp [and_assoc]

/-! ### Inputs without signatures -/

/-- What passes with signatures passes without, for a block or not. -/
theorem spendInput_without_sig {fBlock : Bool} {inputs inputs' : MapPrevTx}
    {mapTestPool mapTestPool' : StdMap Uint256 CTxIndex} {prevoutI : COutPoint × Nat}
    (h : spendInput env ctx tx posThisTx fBlock false flags fValidateSig (inputs, mapTestPool) prevoutI =
        .ok (inputs', mapTestPool'))
    (fBlock' : Bool) (flags' : Nat) (mapTestPool₂ : StdMap Uint256 CTxIndex) :
    ∃ mapTestPool₂', spendInput env ctx tx posThisTx fBlock' false flags' false (inputs, mapTestPool₂)
      prevoutI = .ok (inputs', mapTestPool₂') := by
  obtain ⟨prevout, i⟩ := prevoutI
  unfold spendInput at h ⊢
  cases hlookup : inputs.lookup prevout.hash with
  | none =>
    simp only [hlookup] at h
    cases h
  | some fetched =>
    simp only [hlookup, exceptBind_ok, rejectIf_eq_ok] at h ⊢
    obtain ⟨_, hunspent, -, -, h⟩ := h
    obtain ⟨rfl, -⟩ := Prod.mk.inj (Except.ok.inj h)
    exact ⟨_, (), hunspent, (), rfl, rfl⟩

theorem spendInputs_without_sig {fBlock : Bool} :
    ∀ {prevouts : List (COutPoint × Nat)} {inputs inputs' : MapPrevTx}
    {mapTestPool mapTestPool' : StdMap Uint256 CTxIndex},
    prevouts.foldlM (spendInput env ctx tx posThisTx fBlock false flags fValidateSig) (inputs, mapTestPool) =
      .ok (inputs', mapTestPool') → ∀ (fBlock' : Bool) (flags' : Nat) (mapTestPool₂ : StdMap Uint256 CTxIndex),
    ∃ mapTestPool₂', prevouts.foldlM (spendInput env ctx tx posThisTx fBlock' false flags' false)
      (inputs, mapTestPool₂) = .ok (inputs', mapTestPool₂')
  | [], _, _, _, _, h, _, _, mapTestPool₂ => by
    obtain ⟨rfl, -⟩ := Prod.mk.inj (Except.ok.inj h)
    exact ⟨mapTestPool₂, rfl⟩
  | prevoutI :: rest, _, _, _, _, h, fBlock', flags', mapTestPool₂ => by
    rw [List.foldlM_cons, exceptBind_ok] at h
    obtain ⟨⟨inputs₁, mapTestPool₁⟩, hone, hrest⟩ := h
    obtain ⟨mapTestPool₃, hone'⟩ := spendInput_without_sig hone fBlock' flags' mapTestPool₂
    obtain ⟨mapTestPool₄, hrest'⟩ := spendInputs_without_sig hrest fBlock' flags' mapTestPool₃
    exact ⟨mapTestPool₄, by rw [List.foldlM_cons, hone', exceptOk_bind, hrest']⟩

theorem connectInputs_without_sig {m : BlockMap} {inputs : MapPrevTx} {pindexBlock : Option Uint256}
    {fBlock : Bool}
    (h : (connectInputs env ctx m tx inputs ∅ posThisTx pindexBlock fBlock false flags fValidateSig).isOk = true)
    (fBlock' : Bool) (flags' : Nat) :
    (connectInputs env ctx m tx inputs ∅ posThisTx pindexBlock fBlock' false flags' false).isOk = true := by
  unfold connectInputs at h ⊢
  cases hcb : tx.isCoinBase with
  | true => rfl
  | false =>
    simp only [hcb, Bool.false_eq_true, if_false, isOk_bind_iff] at h ⊢
    obtain ⟨nValueIn, hvalue, ⟨inputs', mapTestPool'⟩, hspend, _, hfee, -⟩ := h
    obtain ⟨mapTestPool₂, hspend'⟩ := spendInputs_without_sig hspend fBlock' flags' ∅
    exact ⟨nValueIn, hvalue, (inputs', mapTestPool₂), hspend', (), hfee, rfl⟩

/-! ### The checks one by one -/

/-- The checks of both functions apart from the fee rules, with the inputs that they fetch and the fee. -/
structure PassesBoth (env : Env) (ctx : Ctx) (node : Node) (tx : CTransaction) (mapInputs : MapPrevTx)
    (nFees : CAmount) : Prop where
  checkTransaction : tx.checkTransaction = .ok ()
  notCoinBase : tx.isCoinBase = false
  notCoinStake : tx.isCoinStake = false
  notInPool : node.mempool.contains (env.getHash tx) = false
  notLocked : conflictsWithLock ctx (env.getHash tx) tx = false
  noConflict : (tx.prevouts.any fun o => (node.mempool.mapNextTx.lookup o).isSome) = false
  notInChain : (⟨node.txdb.pdb, none⟩ : CTxDB).containsTx (env.getHash tx) = false
  fetched : fetchInputs env ⟨node.txdb.pdb, none⟩ node.mempool ∅ false false tx = .ok mapInputs
  sigOps : ∃ nP2SH, getP2SHSigOpCount tx mapInputs = .ok nP2SH ∧ tx.getLegacySigOpCount + nP2SH ≤ maxTxSigOps
  fee : ∃ nValueIn nValueOut, getValueIn tx mapInputs = .ok nValueIn ∧ tx.getValueOut = .ok nValueOut ∧
    nFees = nValueIn - nValueOut
  connected : (connectInputs env ctx node.mapBlockIndex tx mapInputs ∅ CDiskTxPos.memoryPool node.pindexBest
    false false standardScriptVerifyFlags false).isOk = true

/-- The checks that only `AcceptToMemoryPool` makes: standardness, parents in the chain, signatures. -/
structure PassesPool (env : Env) (ctx : Ctx) (node : Node) (tx : CTransaction) (mapInputs : MapPrevTx) :
    Prop where
  isStandardTx : ctx.isStandardTx tx = true
  areInputsStandard : ctx.areInputsStandard tx = true
  parentsInChain : (tx.prevouts.all fun o => (⟨node.txdb.pdb, none⟩ : CTxDB).containsTx o.hash) = true
  signed : ∀ flags ∈ [standardScriptVerifyFlags, mandatoryScriptVerifyFlags],
    (connectInputs env ctx node.mapBlockIndex tx mapInputs ∅ CDiskTxPos.memoryPool node.pindexBest
      false false flags).isOk = true

theorem PassesBoth.unique {mapInputs' : MapPrevTx} {nFees' : CAmount}
    (h : PassesBoth env ctx node tx mapInputs nFees) (h' : PassesBoth env ctx node tx mapInputs' nFees') :
    mapInputs = mapInputs' ∧ nFees = nFees' := by
  obtain rfl := Except.ok.inj (h.fetched.symm.trans h'.fetched)
  obtain ⟨nValueIn, nValueOut, hin, hout, rfl⟩ := h.fee
  obtain ⟨nValueIn', nValueOut', hin', hout', rfl⟩ := h'.fee
  obtain rfl := Except.ok.inj (hin.symm.trans hin')
  obtain rfl := Except.ok.inj (hout.symm.trans hout')
  exact ⟨rfl, rfl⟩

theorem mapError_eq_ok {ε ε' α : Type} {f : ε → ε'} {x : Except ε α} {a : α} :
    x.mapError f = .ok a ↔ x = .ok a := by
  rcases x with e | b <;> simp [Except.mapError]

theorem acceptToMemoryPool_isOk_iff : (acceptToMemoryPool env ctx node tx).isOk = true ↔
    ∃ mapInputs nFees, PassesBoth env ctx node tx mapInputs nFees ∧ PassesPool env ctx node tx mapInputs ∧
      ctx.acceptFees tx nFees = true := by
  unfold acceptToMemoryPool
  cases hcheck : tx.checkTransaction with
  | error e =>
    refine iff_of_false Bool.false_ne_true ?_
    rintro ⟨_, _, h, -⟩
    rw [h.checkTransaction] at hcheck
    cases hcheck
  | ok =>
    simp only [isOk_bind_iff, exceptBind_ok, rejectIf_eq_ok, acceptInputs, acceptFetched, mapError_eq_ok]
    constructor
    · rintro ⟨-, hcb, -, hcs, -, hstandard, -, hpool, -, hlock, -, hconflict, -, ⟨-, hchain, -, hparents,
        mapInputs, hfetch, -, hinputs, nP2SH, hP2SH, -, hsig, nValueIn, hin, nValueOut, hout, -, hfees, q,
        hconnect, q', hconnect', -⟩, -⟩
      refine ⟨mapInputs, _, ⟨hcheck, hcb, hcs, hpool, hlock, hconflict, hchain, hfetch, ⟨nP2SH, hP2SH, ?_⟩,
        ⟨nValueIn, nValueOut, hin, hout, rfl⟩, ?_⟩, ⟨?_, ?_, ?_, ?_⟩, ?_⟩
      · simpa using hsig
      · exact connectInputs_without_sig (by rw [hconnect]; rfl) false _
      · simpa using hstandard
      · simpa using hinputs
      · simpa using hparents
      · intro flags hflags
        rcases List.mem_pair.mp hflags with rfl | rfl
        · exact (by rw [hconnect]; rfl)
        · exact (by rw [hconnect']; rfl)
      · simpa using hfees
    · rintro ⟨mapInputs, nFees, h, hpool, hfees⟩
      obtain ⟨nP2SH, hP2SH, hsig⟩ := h.sigOps
      obtain ⟨nValueIn, nValueOut, hin, hout, rfl⟩ := h.fee
      obtain ⟨q, hconnect⟩ := exists_of_isOk (hpool.signed _ (List.mem_cons_self ..))
      obtain ⟨q', hconnect'⟩ := exists_of_isOk (hpool.signed _ (List.mem_cons_of_mem _ (List.mem_cons_self ..)))
      exact ⟨(), h.notCoinBase, (), h.notCoinStake, (), by simpa using hpool.isStandardTx, (), h.notInPool, (),
        h.notLocked, (), h.noConflict, (), ⟨(), h.notInChain, (), by simpa using hpool.parentsInChain, mapInputs,
        h.fetched, (), by simpa using hpool.areInputsStandard, nP2SH, hP2SH, (), by simpa using hsig, nValueIn, hin,
        nValueOut, hout, (), by simpa using hfees, q, hconnect, q', hconnect', rfl⟩, rfl⟩

theorem passesBoth_withFees {f : CTransaction → CAmount → Bool} :
    PassesBoth env { ctx with acceptFees := f } node tx mapInputs nFees ↔
      PassesBoth env ctx node tx mapInputs nFees := by
  constructor <;> exact fun h => ⟨h.1, h.2, h.3, h.4, h.5, h.6, h.7, h.8, h.9, h.10, h.11⟩

theorem passesPool_withFees {f : CTransaction → CAmount → Bool} :
    PassesPool env { ctx with acceptFees := f } node tx mapInputs ↔ PassesPool env ctx node tx mapInputs := by
  constructor <;> exact fun h => ⟨h.1, h.2, h.3, h.4⟩

theorem acceptToMemoryPoolWith_isOk_iff (ignoreFees fLimited : Bool) :
    (acceptToMemoryPoolWith env ctx node args ignoreFees fLimited tx).isOk = true ↔
      ∃ mapInputs nFees, PassesBoth env ctx node tx mapInputs nFees ∧ PassesPool env ctx node tx mapInputs ∧
        memPoolFees env args ignoreFees fLimited tx nFees = true := by
  rw [acceptToMemoryPoolWith, acceptToMemoryPool_isOk_iff]
  simp only [passesBoth_withFees, passesPool_withFees]

theorem acceptableInputs_isOk_iff (isDSTX fLimited : Bool) :
    (acceptableInputs env ctx node args isDSTX fLimited tx).isOk = true ↔
      ∃ mapInputs nFees, PassesBoth env ctx node tx mapInputs nFees ∧
        (dryRunFees args isDSTX fLimited tx nFees).isOk = true := by
  unfold acceptableInputs
  cases hcheck : tx.checkTransaction with
  | error e =>
    refine iff_of_false Bool.false_ne_true ?_
    rintro ⟨_, _, h, -⟩
    rw [h.checkTransaction] at hcheck
    cases hcheck
  | ok =>
    simp only [isOk_bind_iff, rejectIf_eq_ok, dryRunInputs, mapError_eq_ok]
    constructor
    · rintro ⟨-, hcb, -, hcs, -, hpool, -, hlock, -, hconflict, -, hchain, mapInputs, hfetch, nP2SH, hP2SH, -,
        hsig, nValueIn, hin, nValueOut, hout, u, hfees, q, hconnect, -⟩
      refine ⟨mapInputs, _, ⟨hcheck, hcb, hcs, hpool, hlock, hconflict, hchain, hfetch, ⟨nP2SH, hP2SH, ?_⟩,
        ⟨nValueIn, nValueOut, hin, hout, rfl⟩, ?_⟩, ?_⟩
      · simpa using hsig
      · exact connectInputs_without_sig (by rw [hconnect]; rfl) false _
      · rw [hfees]
        rfl
    · rintro ⟨mapInputs, nFees, h, hfees⟩
      obtain ⟨nP2SH, hP2SH, hsig⟩ := h.sigOps
      obtain ⟨nValueIn, nValueOut, hin, hout, rfl⟩ := h.fee
      obtain ⟨u, hfees'⟩ := exists_of_isOk hfees
      obtain ⟨q, hconnect⟩ := exists_of_isOk
        (connectInputs_without_sig h.connected true standardScriptVerifyFlags)
      exact ⟨(), h.notCoinBase, (), h.notCoinStake, (), h.notInPool, (), h.notLocked, (), h.noConflict, (),
        h.notInChain, mapInputs, h.fetched, nP2SH, hP2SH, (), by simpa using hsig, nValueIn, hin, nValueOut, hout,
        u, hfees', q, hconnect, rfl⟩

/-! ### Agreement -/

/-- The dry run accepts what the memory pool accepts, and what it accepts passes every check of the memory
pool but those of `PassesPool`.  The rate limiter, here and there, does not count. -/
structure DryRunAgrees (env : Env) (ctx : Ctx) (node : Node) (args : FeeArgs) (tx : CTransaction) : Prop where
  accepts : ∀ fLimited, (acceptToMemoryPoolWith env ctx node args false fLimited tx).isOk = true →
    (acceptableInputs env ctx node args false false tx).isOk = true
  checks : ∀ fLimited, (acceptableInputs env ctx node args false fLimited tx).isOk = true →
    ∃ mapInputs nFees, PassesBoth env ctx node tx mapInputs nFees ∧
      memPoolFees env args false false tx nFees = true

/-- The fee is insane for `AcceptableInputs` only, or too low for it and not for a transaction that this node
broadcasts. -/
def FeeTooStrict (env : Env) (args : FeeArgs) (tx : CTransaction) (nFees : CAmount) : Prop :=
  (args.fRejectInsaneFee = true → nFees ≤ minRelayTxFee * 10000) ∧
    (args.fRejectInsaneFee = true ∧ relayFee tx * 10000 < nFees ∨
      args.mapStashedsendBroadcastTxes (env.getHash tx) = true ∧ args.fLimitFree = true ∧ nFees < relayFee tx)

/-- The fee is insane for `AcceptToMemoryPool` only. -/
def FeeTooLax (args : FeeArgs) (tx : CTransaction) (nFees : CAmount) : Prop :=
  args.fRejectInsaneFee = true ∧ minRelayTxFee * 10000 < nFees ∧ nFees ≤ relayFee tx * 10000 ∧
    (args.fLimitFree = true → relayFee tx ≤ nFees)

theorem highEnough_of_limited {txMinFee : CAmount} (h : args.highEnough fLimited txMinFee nFees = true) :
    args.highEnough false txMinFee nFees = true := by
  simp only [FeeArgs.highEnough, Bool.and_eq_true] at h ⊢
  exact ⟨h.1, by simp⟩

theorem highEnough_iff {txMinFee : CAmount} :
    args.highEnough false txMinFee nFees = true ↔ (args.fLimitFree = true → txMinFee ≤ nFees) := by
  cases hlimit : args.fLimitFree <;> simp [FeeArgs.highEnough, hlimit]

theorem feeTooStrict_iff : FeeTooStrict env args tx nFees ↔
    memPoolFees env args false false tx nFees = true ∧
      ¬(dryRunFees args false false tx nFees).isOk = true := by
  have hmin := relayFee_nonneg tx
  rw [dryRunFees_isOk_iff, Bool.false_or, highEnough_iff, FeeTooStrict, memPoolFees]
  simp only [Bool.or_false, Bool.and_eq_true, Bool.or_eq_true, highEnough_iff, Bool.not_eq_true',
    Bool.and_eq_false_iff, decide_eq_false_iff_not, not_lt]
  grind

theorem feeTooLax_iff (env : Env) : FeeTooLax args tx nFees ↔
    (dryRunFees args false false tx nFees).isOk = true ∧
      ¬memPoolFees env args false false tx nFees = true := by
  rw [dryRunFees_isOk_iff, Bool.false_or, highEnough_iff, FeeTooLax, memPoolFees]
  simp only [Bool.or_false, Bool.and_eq_true, Bool.or_eq_true, highEnough_iff, Bool.not_eq_true',
    Bool.and_eq_false_iff, decide_eq_false_iff_not, not_lt]
  grind

theorem memPoolFees_of_limited (h : memPoolFees env args false fLimited tx nFees = true) :
    memPoolFees env args false false tx nFees = true := by
  simp only [memPoolFees, Bool.and_eq_true, Bool.or_eq_true] at h ⊢
  exact ⟨h.1.imp_right highEnough_of_limited, h.2⟩

theorem dryRunFees_of_limited (h : (dryRunFees args false fLimited tx nFees).isOk = true) :
    (dryRunFees args false false tx nFees).isOk = true := by
  rw [dryRunFees_isOk_iff, Bool.false_or] at h ⊢
  exact ⟨highEnough_of_limited h.1, h.2⟩

/-- **The dry run and the real check** agree on a transaction unless its fee is between the two limits on
insane fees, or it is a mixing transaction of this node that pays too little. -/
theorem dryRunAgrees_iff : DryRunAgrees env ctx node args tx ↔
    ∀ mapInputs nFees, PassesBoth env ctx node tx mapInputs nFees → ¬FeeTooLax args tx nFees ∧
      (PassesPool env ctx node tx mapInputs → ¬FeeTooStrict env args tx nFees) := by
  constructor
  · rintro ⟨haccepts, hchecks⟩ mapInputs nFees h
    constructor
    · intro hlax
      obtain ⟨hdry, hpool⟩ := (feeTooLax_iff env).mp hlax
      obtain ⟨mapInputs', nFees', h', hpool'⟩ :=
        hchecks false ((acceptableInputs_isOk_iff false false).mpr ⟨mapInputs, nFees, h, hdry⟩)
      rw [(h.unique h').2] at hpool
      exact hpool hpool'
    · intro hrest hstrict
      obtain ⟨hpool, hdry⟩ := feeTooStrict_iff.mp hstrict
      have hok := haccepts false ((acceptToMemoryPoolWith_isOk_iff false false).mpr
        ⟨mapInputs, nFees, h, hrest, hpool⟩)
      obtain ⟨mapInputs', nFees', h', hdry'⟩ := (acceptableInputs_isOk_iff false false).mp hok
      rw [(h.unique h').2] at hdry
      exact hdry hdry'
  · intro hall
    constructor
    · intro fLimited hok
      obtain ⟨mapInputs, nFees, h, hrest, hpool⟩ := (acceptToMemoryPoolWith_isOk_iff false fLimited).mp hok
      refine (acceptableInputs_isOk_iff false false).mpr ⟨mapInputs, nFees, h, ?_⟩
      by_contra hdry
      exact (hall mapInputs nFees h).2 hrest (feeTooStrict_iff.mpr ⟨memPoolFees_of_limited hpool, hdry⟩)
    · intro fLimited hok
      obtain ⟨mapInputs, nFees, h, hdry⟩ := (acceptableInputs_isOk_iff false fLimited).mp hok
      refine ⟨mapInputs, nFees, h, ?_⟩
      by_contra hpool
      exact (hall mapInputs nFees h).1 ((feeTooLax_iff env).mpr ⟨dryRunFees_of_limited hdry, hpool⟩)

def payingTx : CTransaction := { ordinaryTx with vout := [⟨5 * coin - 1000, [1], -10⟩] }

/-- **A small fee is insane.**  `AcceptToMemoryPool` takes the transaction, and `AcceptableInputs` refuses it:
a transaction of its size need not pay to be relayed, and ten thousand times nothing is the limit. -/
theorem dryRun_refuses_fee :
    (acceptToMemoryPoolWith (sampleEnv []) sampleCtx (sampleNode [fundingIndex]) ⟨true, true, fun _ => false⟩
      false false payingTx).isOk = true ∧
    (acceptableInputs (sampleEnv []) sampleCtx (sampleNode [fundingIndex]) ⟨true, true, fun _ => false⟩
      false false payingTx).isOk = false ∧
    ¬DryRunAgrees (sampleEnv []) sampleCtx (sampleNode [fundingIndex]) ⟨true, true, fun _ => false⟩
      payingTx := by
  have hpool : (acceptToMemoryPoolWith (sampleEnv []) sampleCtx (sampleNode [fundingIndex])
      ⟨true, true, fun _ => false⟩ false false payingTx).isOk = true := by decide
  have hdry : (acceptableInputs (sampleEnv []) sampleCtx (sampleNode [fundingIndex])
      ⟨true, true, fun _ => false⟩ false false payingTx).isOk = false := by decide
  refine ⟨hpool, hdry, fun h => ?_⟩
  have hok := h.accepts false hpool
  rw [hdry] at hok
  cases hok

end Sphinx
