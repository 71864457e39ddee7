import Sphinx.Script.Equiv.SigOpCount
import Sphinx.Script.Equiv.Standard

/-!
# Input standardness is not per input

`StandardInput` says of a single input that it is standard.  The loop of `AreInputsStandard` goes on after an
input that is, except after one whose redeem script is no template (`UnknownRedeem`): there it returns.

* `inputsStandardLoop_eq_true`: what the loop accepts;
* `areInputsStandard_iff`: it accepts exactly the transactions whose inputs are all standard unless an input
  with an unknown redeem script comes before the first one that is not; without such redeem scripts the order
  of the inputs does not matter.
-/

namespace Sphinx

open CScript Checked

variable {script : CScript}

section

variable (crypto : ScriptCrypto) (tx : CTransaction) (mapInputs : MapPrevTx)
variable {tx' : CTransaction} {nHashType : Int}

/-- The redeem script on top of the stack is a template and gets the items that it expects, or it is no template and
has few signature operations. -/
def StandardRedeem (stack : List Valtype) : Prop :=
  ∃ subscript rest, stack = subscript :: rest ∧
    ((∃ t vSolutions, solverRet subscript [] = ⟨true, t, vSolutions⟩ ∧ t ≠ .scripthash ∧
        0 ≤ scriptSigArgsExpected t vSolutions ∧ (stack.length : Int) = 1 + scriptSigArgsExpected t vSolutions) ∨
      ((solverRet subscript []).ok = false ∧ getSigOpCount subscript true ≤ MAX_P2SH_SIGOPS))

/-- An input and its position. -/
def StandardInput (p : CTxIn × Nat) : Prop :=
  ∃ prev t vSolutions stack, getOutputFor mapInputs p.1.prevout = .ok prev ∧
    prev.scriptPubKey.solverRet [] = ⟨true, t, vSolutions⟩ ∧ 0 ≤ scriptSigArgsExpected t vSolutions ∧
    evalScript (evalRules crypto tx p.2 SCRIPT_VERIFY_NONE 0) [] p.1.scriptSig = .ok stack ∧
    if t = .scripthash then StandardRedeem stack else (stack.length : Int) = scriptSigArgsExpected t vSolutions

/-- A pay-to-script-hash input whose redeem script `Solver` does not know. -/
def UnknownRedeem (p : CTxIn × Nat) : Prop :=
  ∃ prev subscript rest, getOutputFor mapInputs p.1.prevout = .ok prev ∧
    prev.scriptPubKey.isPayToScriptHash = true ∧
    evalScript (evalRules crypto tx p.2 SCRIPT_VERIFY_NONE 0) [] p.1.scriptSig = .ok (subscript :: rest) ∧
    (solverRet subscript []).ok = false

/-- No unknown redeem script comes before the first input that is not standard. -/
def KnownUntilFailure : Prop :=
  ∀ pre p post, tx.vin.zipIdx = pre ++ p :: post → (∀ q ∈ pre, StandardInput crypto tx mapInputs q) →
    ¬StandardInput crypto tx mapInputs p → ∀ q ∈ pre, ¬UnknownRedeem crypto tx mapInputs q

end

section Round

variable {crypto : ScriptCrypto} {tx : CTransaction} {mapInputs : MapPrevTx} {txin : CTxIn} {i : Nat}

/-! ### One round -/

/-- The redeem script on top of the stack is not known. -/
def UnknownTop (stack : List Valtype) : Prop :=
  ∃ subscript rest, stack = subscript :: rest ∧ (solverRet subscript []).ok = false

theorem checkArgs_eq_none {stack : List Valtype} {n : Int} :
    checkArgs stack n = none ↔ (stack.length : Int) = n := by
  unfold checkArgs
  split_ifs with hne
  · exact ⟨fun h => (nomatch h), fun h => absurd h hne⟩
  · exact ⟨fun _ => not_not.mp hne, fun _ => rfl⟩

theorem checkArgs_ne_true {stack : List Valtype} {n : Int} : checkArgs stack n ≠ some true := by
  unfold checkArgs
  split_ifs <;> simp

theorem checkSubscript_spec (stack : List Valtype) :
    (checkSubscript stack 1 = none ↔ StandardRedeem stack ∧ ¬UnknownTop stack) ∧
      (checkSubscript stack 1 = some true ↔ StandardRedeem stack ∧ UnknownTop stack) := by
  cases stack with
  | nil =>
    have hnot : ¬StandardRedeem [] := fun ⟨_, _, h, _⟩ => nomatch h
    exact ⟨⟨fun h => (nomatch h), fun h => absurd h.1 hnot⟩,
      ⟨fun h => (nomatch h), fun h => absurd h.1 hnot⟩⟩
  | cons subscript rest =>
    have htop : UnknownTop (subscript :: rest) ↔ (solverRet subscript []).ok = false := by
      constructor
      · rintro ⟨_, _, h, hok⟩
        cases h
        exact hok
      · exact fun hok => ⟨subscript, rest, rfl, hok⟩
    rw [htop]
    unfold checkSubscript
    dsimp only
    cases hr : solverRet subscript [] with
    | mk ok t vSolutions =>
    cases ok with
    | false =>
      -- a script that is no template: the round returns
      have hredeem : StandardRedeem (subscript :: rest) ↔ getSigOpCount subscript true ≤ MAX_P2SH_SIGOPS := by
        constructor
        · rintro ⟨_, _, h, hredeem⟩
          cases h
          rcases hredeem with ⟨t', v', hr', _⟩ | ⟨_, hle⟩
          · rw [hr] at hr'
            cases hr'
          · exact hle
        · exact fun hle => ⟨subscript, rest, rfl, .inr ⟨by rw [hr], hle⟩⟩
      rw [hredeem, if_neg Bool.false_ne_true]
      simp
    | true =>
      have hredeem : StandardRedeem (subscript :: rest) ↔
          t ≠ .scripthash ∧ 0 ≤ scriptSigArgsExpected t vSolutions ∧
          ((subscript :: rest).length : Int) = 1 + scriptSigArgsExpected t vSolutions := by
        constructor
        · rintro ⟨_, _, h, hredeem⟩
          cases h
          rcases hredeem with ⟨t', v', hr', hredeem⟩ | ⟨hok, _⟩
          · cases hr.symm.trans hr'
            exact hredeem
          · rw [hr] at hok
            cases hok
        · exact fun hredeem => ⟨subscript, rest, rfl, .inl ⟨t, vSolutions, hr, hredeem⟩⟩
      rw [hredeem, if_pos rfl]
      dsimp only
      split_ifs with ht hneg
      · simp [ht]
      · simp [not_le.mpr hneg]
      · rw [checkArgs_eq_none]
        refine ⟨by simp [ht, not_lt.mp hneg], ?_⟩
        exact ⟨fun h => absurd h checkArgs_ne_true, fun h => by simp at h⟩

theorem scanTemplatesRet_type {t : Txnouttype} {vSolutions : List Valtype} :
    ∀ templates : List (Txnouttype × List Nat), scanTemplatesRet script templates = ⟨true, t, vSolutions⟩ →
      ∃ script2, (t, script2) ∈ templates := by
  intro templates
  induction templates with
  | nil => exact fun h => (nomatch h)
  | cons template templates ih =>
    intro h
    cases hmatch : matchTemplate template.2 script [] with
    | none =>
      rw [scanTemplatesRet_none hmatch] at h
      obtain ⟨script2, hmem⟩ := ih h
      exact ⟨script2, List.mem_cons_of_mem _ hmem⟩
    | some v =>
      rw [scanTemplatesRet, hmatch] at h
      dsimp only at h
      split_ifs at h
      · cases h
      · cases h
        exact ⟨template.2, List.mem_cons_self⟩

theorem isPayToScriptHash_iff_solverRet {t : Txnouttype} {vSolutions : List Valtype}
    (h : script.solverRet [] = ⟨true, t, vSolutions⟩) : script.isPayToScriptHash = true ↔ t = .scripthash := by
  constructor
  · intro hp2sh
    rw [solverRet, if_pos hp2sh] at h
    cases h
    rfl
  · rintro rfl
    by_contra hp2sh
    rw [solverRet, if_neg hp2sh] at h
    obtain ⟨script2, hmem⟩ := scanTemplatesRet_type _ h
    simp [mTemplates] at hmem

theorem exists_first_failure {α : Type} {P : α → Prop} : ∀ {l : List α}, (¬∀ a ∈ l, P a) →
    ∃ l1 a l2, l = l1 ++ a :: l2 ∧ (∀ b ∈ l1, P b) ∧ ¬P a := by
  intro l
  induction l with
  | nil => exact fun h => absurd (List.forall_mem_nil _) h
  | cons a l ih =>
    intro h
    by_cases ha : P a
    · rw [List.forall_mem_cons, not_and] at h
      obtain ⟨l1, b, l2, rfl, hl1, hb⟩ := ih (h ha)
      exact ⟨a :: l1, b, l2, rfl, List.forall_mem_cons.mpr ⟨ha, hl1⟩, hb⟩
    · exact ⟨[], a, l, rfl, List.forall_mem_nil _, ha⟩

/-- A round goes on after a standard input, and returns true after one with an unknown redeem script. -/
theorem checkInputStandard_spec :
    (checkInputStandard crypto tx mapInputs i txin = .ok none ↔
      StandardInput crypto tx mapInputs (txin, i) ∧ ¬UnknownRedeem crypto tx mapInputs (txin, i)) ∧
    (checkInputStandard crypto tx mapInputs i txin = .ok (some true) ↔
      StandardInput crypto tx mapInputs (txin, i) ∧ UnknownRedeem crypto tx mapInputs (txin, i)) := by
  have hfail : ∀ r, checkInputStandard crypto tx mapInputs i txin = r → r ≠ .ok none → r ≠ .ok (some true) →
      ¬StandardInput crypto tx mapInputs (txin, i) →
      (checkInputStandard crypto tx mapInputs i txin = .ok none ↔
        StandardInput crypto tx mapInputs (txin, i) ∧ ¬UnknownRedeem crypto tx mapInputs (txin, i)) ∧
      (checkInputStandard crypto tx mapInputs i txin = .ok (some true) ↔
        StandardInput crypto tx mapInputs (txin, i) ∧ UnknownRedeem crypto tx mapInputs (txin, i)) := by
    rintro r rfl hnone htrue hnot
    exact ⟨⟨fun h => absurd h hnone, fun h => absurd h.1 hnot⟩,
      ⟨fun h => absurd h htrue, fun h => absurd h.1 hnot⟩⟩
  cases hprev : getOutputFor mapInputs txin.prevout with
  | error e =>
    refine hfail (.error e) (by rw [checkInputStandard, hprev]; rfl) (fun h => nomatch h) (fun h => nomatch h) ?_
    rintro ⟨prev, t, v, stack, hprev', _⟩
    rw [hprev] at hprev'
    cases hprev'
  | ok prev =>
  cases hr : prev.scriptPubKey.solverRet [] with
  | mk ok t vSolutions =>
  cases ok with
  | false =>
    refine hfail (.ok (some false)) ?_ (fun h => nomatch h) (fun h => nomatch h) ?_
    · simp [checkInputStandard, hprev, hr, bind, Except.bind]
      rfl
    · rintro ⟨prev', t', v', stack, hprev', hr', _⟩
      cases hprev.symm.trans hprev'
      rw [hr] at hr'
      cases hr'
  | true =>
  by_cases hneg : scriptSigArgsExpected t vSolutions < 0
  · refine hfail (.ok (some false)) ?_ (fun h => nomatch h) (fun h => nomatch h) ?_
    · simp [checkInputStandard, hprev, hr, hneg, bind, Except.bind]
      rfl
    · rintro ⟨prev', t', v', stack, hprev', hr', hpos, _⟩
      cases hprev.symm.trans hprev'
      cases hr.symm.trans hr'
      exact absurd hneg (not_lt.mpr hpos)
  cases heval : evalScript (evalRules crypto tx i SCRIPT_VERIFY_NONE 0) [] txin.scriptSig with
  | error e =>
    refine hfail (.ok (some false)) ?_ (fun h => nomatch h) (fun h => nomatch h) ?_
    · simp [checkInputStandard, hprev, hr, hneg, heval, bind, Except.bind]
      rfl
    · rintro ⟨prev', t', v', stack, hprev', hr', hpos, heval', _⟩
      rw [heval] at heval'
      cases heval'
  | ok stack =>
  have hround : checkInputStandard crypto tx mapInputs i txin =
      .ok (if t = .scripthash then checkSubscript stack (scriptSigArgsExpected t vSolutions)
        else checkArgs stack (scriptSigArgsExpected t vSolutions)) := by
    simp [checkInputStandard, hprev, hr, hneg, heval, bind, Except.bind]
    rfl
  have hstandard : StandardInput crypto tx mapInputs (txin, i) ↔
      if t = .scripthash then StandardRedeem stack else (stack.length : Int) = scriptSigArgsExpected t vSolutions := by
    constructor
    · rintro ⟨prev', t', v', stack', hprev', hr', _, heval', h⟩
      cases hprev.symm.trans hprev'
      cases hr.symm.trans hr'
      cases heval.symm.trans heval'
      exact h
    · exact fun h => ⟨prev, t, vSolutions, stack, hprev, hr, not_lt.mp hneg, heval, h⟩
  have hunknown : UnknownRedeem crypto tx mapInputs (txin, i) ↔ t = .scripthash ∧ UnknownTop stack := by
    constructor
    · rintro ⟨prev', subscript, rest, hprev', hp2sh, heval', hok⟩
      cases hprev.symm.trans hprev'
      have hstack := Except.ok.inj (heval.symm.trans heval')
      exact ⟨(isPayToScriptHash_iff_solverRet hr).mp hp2sh, subscript, rest, hstack, hok⟩
    · rintro ⟨ht, subscript, rest, rfl, hok⟩
      exact ⟨prev, subscript, rest, hprev, (isPayToScriptHash_iff_solverRet hr).mpr ht, heval, hok⟩
  rw [hround, hstandard, hunknown, Except.ok.injEq, Except.ok.injEq]
  by_cases ht : t = .scripthash
  · subst ht
    rw [if_pos rfl, if_pos rfl]
    obtain ⟨hnone, htrue⟩ := checkSubscript_spec stack
    exact ⟨by rw [show scriptSigArgsExpected .scripthash vSolutions = 1 from rfl, hnone]; simp,
      by rw [show scriptSigArgsExpected .scripthash vSolutions = 1 from rfl, htrue]; simp⟩
  · rw [if_neg ht, if_neg ht, checkArgs_eq_none]
    exact ⟨by simp [ht], ⟨fun h => absurd h checkArgs_ne_true, fun h => absurd h.2.1 ht⟩⟩

theorem standardInput_iff {p : CTxIn × Nat} : StandardInput crypto tx mapInputs p ↔
    checkInputStandard crypto tx mapInputs p.2 p.1 = .ok none ∨
      checkInputStandard crypto tx mapInputs p.2 p.1 = .ok (some true) := by
  obtain ⟨hnone, htrue⟩ := @checkInputStandard_spec crypto tx mapInputs p.1 p.2
  rw [hnone, htrue]
  tauto

instance : DecidablePred (StandardInput crypto tx mapInputs) := fun _ => decidable_of_iff _ standardInput_iff.symm

end Round

/-! ### The loop -/

section Loop

variable {crypto : ScriptCrypto} {tx : CTransaction} {mapInputs : MapPrevTx}

theorem inputsStandardLoop_cons {i : Nat} {txin : CTxIn} {vin : List CTxIn} :
    inputsStandardLoop crypto tx mapInputs i (txin :: vin) = .ok true ↔
      checkInputStandard crypto tx mapInputs i txin = .ok (some true) ∨
      (checkInputStandard crypto tx mapInputs i txin = .ok none ∧
        inputsStandardLoop crypto tx mapInputs (i + 1) vin = .ok true) := by
  rw [inputsStandardLoop]
  cases checkInputStandard crypto tx mapInputs i txin with
  | error e => exact ⟨fun h => (nomatch h), fun h => by rcases h with h | ⟨h, _⟩ <;> cases h⟩
  | ok r =>
    cases r with
    | none => exact ⟨fun h => .inr ⟨rfl, h⟩, fun h => (h.resolve_left fun h => nomatch h).2⟩
    | some f =>
      refine ⟨fun h => .inl ?_, fun h => ?_⟩
      · rw [Except.ok.inj h]
      · rcases h with h | ⟨h, _⟩
        · cases h
          rfl
        · cases h

/-- The loop accepts if all inputs are standard, or all up to one with an unknown redeem script. -/
theorem inputsStandardLoop_eq_true : ∀ (vin : List CTxIn) (i : Nat),
    inputsStandardLoop crypto tx mapInputs i vin = .ok true ↔
      (∀ p ∈ vin.zipIdx i, StandardInput crypto tx mapInputs p) ∨
      ∃ pre p post, vin.zipIdx i = pre ++ p :: post ∧ (∀ q ∈ pre, StandardInput crypto tx mapInputs q) ∧
        StandardInput crypto tx mapInputs p ∧ UnknownRedeem crypto tx mapInputs p := by
  intro vin
  induction vin with
  | nil => exact fun i => ⟨fun _ => .inl fun p hp => (nomatch hp), fun _ => rfl⟩
  | cons txin vin ih =>
    intro i
    obtain ⟨hnone, htrue⟩ := @checkInputStandard_spec crypto tx mapInputs txin i
    rw [inputsStandardLoop_cons, hnone, htrue, ih, List.zipIdx_cons, List.forall_mem_cons]
    constructor
    · rintro (⟨hstd, hunknown⟩ | ⟨⟨hstd, _⟩, hall | ⟨pre, p, post, heq, hpre, hp⟩⟩)
      · exact .inr ⟨[], (txin, i), _, rfl, List.forall_mem_nil _, hstd, hunknown⟩
      · exact .inl ⟨hstd, hall⟩
      · refine .inr ⟨(txin, i) :: pre, p, post, by rw [heq, List.cons_append], ?_, hp⟩
        exact List.forall_mem_cons.mpr ⟨hstd, hpre⟩
    · rintro (⟨hstd, hall⟩ | ⟨pre, p, post, heq, hpre, hp⟩)
      · by_cases hunknown : UnknownRedeem crypto tx mapInputs (txin, i)
        · exact .inl ⟨hstd, hunknown⟩
        · exact .inr ⟨⟨hstd, hunknown⟩, .inl hall⟩
      · cases pre with
        | nil =>
          obtain ⟨rfl, -⟩ := List.cons.inj heq
          exact .inl hp
        | cons q pre =>
          obtain ⟨rfl, hrest⟩ := List.cons.inj heq
          rw [List.forall_mem_cons] at hpre
          by_cases hunknown : UnknownRedeem crypto tx mapInputs (txin, i)
          · exact .inl ⟨hpre.1, hunknown⟩
          · exact .inr ⟨⟨hpre.1, hunknown⟩, .inr ⟨pre, p, post, hrest, hpre.2, hp⟩⟩

/-! ### Scripts that only push -/

theorem evalStep_push_congr {i j flags : Nat} {st : EvalState}
    (hpush : (getOp2 st.pc).opcodeRet ≤ OP_16) :
    evalStep (evalRules crypto tx i flags nHashType) st = evalStep (evalRules crypto tx' j flags nHashType) st := by
  have hinstr : ∀ fExec vch (st1 : EvalState),
      evalInstruction (evalRules crypto tx i flags nHashType) fExec (getOp2 st.pc).opcodeRet vch st1 =
        evalInstruction (evalRules crypto tx' j flags nHashType) fExec (getOp2 st.pc).opcodeRet vch st1 := by
    intro fExec vch st1
    unfold evalInstruction
    cases hop : scriptOp (getOp2 st.pc).opcodeRet with
    | none => rfl
    | some op =>
      obtain ⟨n, rfl, -, -⟩ := pushNum_of_scriptOp hpush hop
      rfl
  unfold evalStep
  simp only [hinstr]

theorem evalLoop_push_congr {i j flags : Nat} : ∀ (fuel : Nat)
    {st : EvalState}, pushOnlyLoop fuel st.pc = true →
    evalLoop (evalRules crypto tx i flags nHashType) fuel st =
      evalLoop (evalRules crypto tx' j flags nHashType) fuel st := by
  intro fuel
  induction fuel with
  | zero =>
    intro st _
    unfold evalLoop
    rfl
  | succ fuel ih =>
    intro st hpush
    unfold evalLoop
    rw [pushOnlyLoop] at hpush
    split_ifs at hpush ⊢ with hpc
    · rfl
    · dsimp only at hpush ⊢
      split_ifs at hpush with hnok hgt
      rw [evalStep_push_congr (not_lt.mp hgt)]
      cases hstep : evalStep (evalRules crypto tx' j flags nHashType) st with
      | error e => rfl
      | ok st1 =>
        have hpc1 : st1.pc = (getOp2 st.pc).pc := (evalStep_pc st).of_ok hstep
        rw [← hpc1] at hpush
        exact ih hpush

theorem evalScript_push_congr {i j flags : Nat} (hpush : script.isPushOnly = true)
    (stack : List Valtype) :
    evalScript (evalRules crypto tx i flags nHashType) stack script =
      evalScript (evalRules crypto tx' j flags nHashType) stack script := by
  have hpush : pushOnlyLoop script.length (EvalState.start stack script).pc = true := hpush
  unfold evalScript
  have hloop : evalLoop (evalRules crypto tx i flags nHashType) script.length (EvalState.start stack script) =
      evalLoop (evalRules crypto tx' j flags nHashType) script.length (EvalState.start stack script) :=
    evalLoop_push_congr script.length hpush
  unfold EvalState.start at hloop
  rw [hloop]

theorem standardInput_congr {txin : CTxIn} (hpush : txin.scriptSig.isPushOnly = true) {i j : Nat}
    (h : StandardInput crypto tx mapInputs (txin, i)) : StandardInput crypto tx' mapInputs (txin, j) := by
  obtain ⟨prev, t, vSolutions, stack, hprev, hr, hpos, heval, hargs⟩ := h
  exact ⟨prev, t, vSolutions, stack, hprev, hr, hpos, (evalScript_push_congr hpush []).trans heval, hargs⟩

theorem forall_standard_of_perm (hperm : tx'.vin.Perm tx.vin)
    (hpush : ∀ txin ∈ tx.vin, txin.scriptSig.isPushOnly = true)
    (h : ∀ p ∈ tx.vin.zipIdx, StandardInput crypto tx mapInputs p) :
    ∀ p ∈ tx'.vin.zipIdx, StandardInput crypto tx' mapInputs p := by
  rintro ⟨txin, j⟩ hmem
  have hin : txin ∈ tx.vin := hperm.subset (List.mem_of_getElem? (List.mem_zipIdx_iff_getElem?.mp hmem))
  obtain ⟨i, hi⟩ := List.mem_iff_getElem?.mp hin
  exact standardInput_congr (hpush txin hin) (h (txin, i) (List.mem_zipIdx_iff_getElem?.mpr hi))

/-- The property holds of a transaction exactly when no unknown redeem script comes before a failure. -/
theorem inputsStandardLoop_iff :
    (inputsStandardLoop crypto tx mapInputs 0 tx.vin = .ok true ↔
      ∀ p ∈ tx.vin.zipIdx, StandardInput crypto tx mapInputs p) ↔ KnownUntilFailure crypto tx mapInputs := by
  rw [inputsStandardLoop_eq_true]
  constructor
  · intro h pre p post heq hpre hnot q hq hunknown
    obtain ⟨pre1, pre2, rfl⟩ := List.append_of_mem hq
    rw [List.forall_mem_append, List.forall_mem_cons] at hpre
    refine hnot (h.mp (.inr ⟨pre1, q, pre2 ++ p :: post, ?_, hpre.1, hpre.2.1, hunknown⟩) p ?_)
    · rw [heq, List.append_assoc, List.cons_append]
    · rw [heq]
      simp
  · refine fun hknown => ⟨fun h => ?_, fun hall => .inl hall⟩
    rcases h with hall | ⟨pre, p, post, heq, hpre, hp, hunknown⟩
    · exact hall
    · by_contra hnot
      -- the first input that is not standard stands behind `p`
      have hpost : ¬∀ q ∈ post, StandardInput crypto tx mapInputs q := by
        intro hpost
        apply hnot
        rw [heq, List.forall_mem_append, List.forall_mem_cons]
        exact ⟨hpre, hp, hpost⟩
      obtain ⟨post1, q, post2, rfl, hpost1, hq⟩ := exists_first_failure hpost
      have hbefore : ∀ r ∈ pre ++ p :: post1, StandardInput crypto tx mapInputs r := by
        rw [List.forall_mem_append, List.forall_mem_cons]
        exact ⟨hpre, hp, hpost1⟩
      refine hknown (pre ++ p :: post1) q post2 ?_ hbefore hq p (by simp) hunknown
      rw [heq, List.append_assoc, List.cons_append]

/-- **Input standardness is per input** exactly when no unknown redeem script comes before the first input that is not
standard.  For scripts that only push, and without unknown redeem scripts, it does not depend on the order. -/
theorem areInputsStandard_iff (crypto : ScriptCrypto) (tx : CTransaction) (mapInputs : MapPrevTx)
    (htx : tx.isCoinBase = false) :
    ((areInputsStandard crypto tx mapInputs = .ok true ↔
        ∀ p ∈ tx.vin.zipIdx, StandardInput crypto tx mapInputs p) ↔ KnownUntilFailure crypto tx mapInputs) ∧
      ∀ tx' : CTransaction, tx'.isCoinBase = false → tx'.vin.Perm tx.vin →
        (∀ txin ∈ tx.vin, txin.scriptSig.isPushOnly = true) →
        KnownUntilFailure crypto tx mapInputs → KnownUntilFailure crypto tx' mapInputs →
        (areInputsStandard crypto tx' mapInputs = .ok true ↔ areInputsStandard crypto tx mapInputs = .ok true) := by
  have hrun : ∀ tx : CTransaction, tx.isCoinBase = false →
      areInputsStandard crypto tx mapInputs = inputsStandardLoop crypto tx mapInputs 0 tx.vin := by
    intro tx htx
    rw [areInputsStandard, htx, if_neg Bool.false_ne_true]
  refine ⟨by rw [hrun tx htx]; exact inputsStandardLoop_iff, fun tx' htx' hperm hpush hknown hknown' => ?_⟩
  rw [hrun tx htx, hrun tx' htx', inputsStandardLoop_iff.mpr hknown, inputsStandardLoop_iff.mpr hknown']
  refine ⟨forall_standard_of_perm hperm.symm fun txin hmem => hpush txin (hperm.subset hmem),
    forall_standard_of_perm hperm hpush⟩

end Loop

/-! ### The redeem script before a bad input -/

def standardPrev : CTransaction :=
  { nTime := 1, vin := [⟨⟨7, 0⟩, [], uintMax⟩],
    vout := [⟨coin, sampleScriptHash, -10⟩, ⟨coin, 0x21 :: 2 :: (List.replicate 32 0 ++ [0xac]), -10⟩] }

def standardInputs : MapPrevTx := AList.insert 1001 (CTxIndex.mk' .null 2, standardPrev) ∅

def redeemInput : CTxIn := ⟨⟨1001, 0⟩, pushVch sampleRedeem, uintMax⟩

def keyInput (scriptSig : CScript) : CTxIn := ⟨⟨1001, 1⟩, scriptSig, uintMax⟩

def spendBoth (vin : List CTxIn) : CTransaction := { nTime := 2, vin := vin, vout := [] }

/-- The second input lacks its signature: it is not looked at, unless it comes first. -/
theorem areInputsStandard_stops_early :
    ¬(areInputsStandard sampleCrypto (spendBoth [redeemInput, keyInput []]) standardInputs = .ok true ↔
      ∀ p ∈ (spendBoth [redeemInput, keyInput []]).vin.zipIdx,
        StandardInput sampleCrypto (spendBoth [redeemInput, keyInput []]) standardInputs p) ∧
    areInputsStandard sampleCrypto (spendBoth [keyInput [], redeemInput]) standardInputs = .ok false := by
  refine ⟨fun h => ?_, by decide +kernel⟩
  have hall := h.mp (by decide +kernel)
  exact absurd (hall (keyInput [], 1) (by decide)) (by decide +kernel)

theorem areInputsStandard_iff_both :
    (areInputsStandard sampleCrypto (spendBoth [keyInput [0x51], redeemInput]) standardInputs = .ok true ↔
      areInputsStandard sampleCrypto (spendBoth [redeemInput, keyInput [0x51]]) standardInputs = .ok true) := by
  have hknown : ∀ vin : List CTxIn,
      (∀ p ∈ vin.zipIdx, StandardInput sampleCrypto (spendBoth vin) standardInputs p) →
      KnownUntilFailure sampleCrypto (spendBoth vin) standardInputs := by
    intro vin hall pre p post heq _ hnot
    exact absurd (hall p (by rw [show vin.zipIdx = pre ++ p :: post from heq]; simp)) hnot
  refine (areInputsStandard_iff sampleCrypto (spendBoth [redeemInput, keyInput [0x51]]) standardInputs rfl).2
    (spendBoth [keyInput [0x51], redeemInput]) rfl (List.Perm.swap _ _ _) (by decide) (hknown _ ?_) (hknown _ ?_)
  · decide +kernel
  · decide +kernel

end Sphinx
