import Sphinx.Script.Equiv.StandardScripts

/-!
# Signature-operation counts

`GetSigOpCount` is read off the bytes of a script, `EvalScript` checks signatures as it goes.  To compare
the two, the interpreter is written once more as a computation that logs every signature check
(`evalScriptTraced`); without the log it is the same interpreter (`evalScriptTraced_result`).

* `evalScriptTraced_log_le`: a script makes no more checks than its accurate count.  One round makes at
  most as many as the instruction adds to the count (`evalStepTraced_logs`), which rests on one fact about
  the round before (`CountedKeys`): after an `OP_1 … OP_16` that is executed, its number is on top of the
  stack.
* `getSigOpCountP2SH_eq`: the redeem script that the count of an input looks at is the one that is
  evaluated.
-/

namespace Sphinx

open CScript Checked Traced
open CScriptNum (ofVch)
open LogsAtMost (lift_bind)

variable {opcode lastOpcode : Nat} {st : EvalState}

/-- A signature check. -/
structure SigCheck where
  vchSig : Valtype
  vchPubKey : Valtype
  scriptCode : CScript
deriving DecidableEq, Repr

/-! ### The interpreter with a log of its checks -/

section Traced

variable (rules : EvalRules)

def checkSigTraced (vchSig vchPubKey : Valtype) (scriptCode : CScript) : Traced EvalStop SigCheck Bool where
  log := [⟨vchSig, vchPubKey, scriptCode⟩]
  result := rules.checkSig vchSig vchPubKey scriptCode

def multiSigLoopTraced (stack : List Valtype) (scriptCode : CScript) :
    Nat → Nat → Nat → Nat → Traced EvalStop SigCheck Bool
  | _, 0, _, _ => pure true
  | 0, _ + 1, _, _ => pure false
  | nKeysCount + 1, nSigsCount + 1, ikey, isig => do
    let vchSig ← stacktop stack isig
    let vchPubKey ← stacktop stack ikey
    let fOk ← checkSigTraced rules vchSig vchPubKey scriptCode
    let nSigsLeft := if fOk then nSigsCount else nSigsCount + 1
    if nKeysCount < nSigsLeft then pure false
    else multiSigLoopTraced stack scriptCode nKeysCount nSigsLeft (ikey + 1) (if fOk then isig + 1 else isig)

def evalCheckSigTraced (fVerify : Bool) (st : EvalState) : Traced EvalStop SigCheck EvalState := do
  failIf (st.stack.length < 2)
  let vchSig ← stacktop st.stack 2
  let vchPubKey ← stacktop st.stack 1
  let scriptCode := st.codehash.findAndDelete (pushVch vchSig)
  let fSuccess ← checkSigTraced rules vchSig vchPubKey scriptCode
  let stack ← popstack st.stack
  let stack ← popstack stack
  pushAnswer st stack fSuccess fVerify

def evalCheckMultiSigTraced (fVerify : Bool) (st : EvalState) : Traced EvalStop SigCheck EvalState := do
  failIf (st.stack.length < 1)
  let vch ← stacktop st.stack 1
  let bn ← ofVch vch rules.fRequireMinimal
  let nKeysCount := getint bn
  failIf (nKeysCount < 0 || 20 < nKeysCount)
  let nKeysCount := nKeysCount.toNat
  let nOpCount := st.nOpCount + nKeysCount
  failIf (201 < nOpCount)
  let ikey := 2
  let i := 2 + nKeysCount
  failIf (st.stack.length < i)
  let vch ← stacktop st.stack i
  let bn ← ofVch vch rules.fRequireMinimal
  let nSigsCount := getint bn
  failIf (nSigsCount < 0 || (nKeysCount : Int) < nSigsCount)
  let nSigsCount := nSigsCount.toNat
  let isig := i + 1
  let i := i + 1 + nSigsCount
  failIf (st.stack.length < i)
  let scriptCode ← dropSigs st.stack isig nSigsCount st.codehash
  let fSuccess ← multiSigLoopTraced rules st.stack scriptCode nKeysCount nSigsCount ikey isig
  let stack ← popstacks (i - 1) st.stack
  failIf (stack.length < 1)
  let vch ← stacktop stack 1
  failIf (rules.fNullDummy && !vch.isEmpty)
  let stack ← popstack stack
  pushAnswer { st with nOpCount := nOpCount } stack fSuccess fVerify

/-- Only the cases of these two opcodes check signatures. -/
def evalOpTraced (fExec : Bool) (st : EvalState) : ScriptOp → Traced EvalStop SigCheck EvalState
  | .checkSig fVerify => evalCheckSigTraced rules fVerify st
  | .checkMultiSig fVerify => evalCheckMultiSigTraced rules fVerify st
  | op => evalOp rules fExec st op

def evalInstructionTraced (fExec : Bool) (opcode : Nat) (vchPushValue : Valtype) (st : EvalState) :
    Traced EvalStop SigCheck EvalState :=
  if fExec && opcode ≤ OP_PUSHDATA4 then do
    failIf (!rules.checkPush vchPushValue opcode)
    return { st with stack := vchPushValue :: st.stack }
  else if fExec || (OP_IF ≤ opcode && opcode ≤ OP_ENDIF) then
    match scriptOp opcode with
    | none => liftM (Except.error EvalStop.fail : Except EvalStop EvalState)
    | some op => evalOpTraced rules fExec st op
  else return st

def evalStepTraced (st : EvalState) : Traced EvalStop SigCheck EvalState := do
  let fExec := !st.vfExec.contains false
  let r := getOp2 st.pc
  failIf (!r.ok)
  failIf (520 < r.vchRet.length)
  let nOpCount := if OP_16 < r.opcodeRet then st.nOpCount + 1 else st.nOpCount
  failIf (OP_16 < r.opcodeRet && 201 < nOpCount)
  failIf (disabledOpcodes.contains r.opcodeRet)
  let st ← evalInstructionTraced rules fExec r.opcodeRet r.vchRet { st with pc := r.pc, nOpCount := nOpCount }
  failIf (1000 < st.stack.length + st.altstack.length)
  return st

def evalLoopTraced : Nat → EvalState → Traced EvalStop SigCheck EvalState
  | fuel, st =>
    if st.pc.isEmpty then pure st
    else match fuel with
      | 0 => liftM (Except.error EvalStop.outOfFuel : Except EvalStop EvalState)
      | fuel + 1 => do
        let st ← evalStepTraced rules st
        evalLoopTraced fuel st

/-- `EvalScript` with a log of the signatures that it checks, the first one first. -/
def evalScriptTraced (stack : List Valtype) (script : CScript) :
    Traced EvalStop SigCheck (List Valtype) := do
  failIf (10000 < script.length)
  let st ← evalLoopTraced rules script.length { stack := stack, pc := script, codehash := script }
  failIf (!st.vfExec.isEmpty)
  return st.stack

end Traced

/-! ### Without the log -/

section Result

variable {rules : EvalRules}

theorem multiSigLoopTraced_result (stack : List Valtype) (scriptCode : CScript) :
    ∀ nKeysCount nSigsCount ikey isig : Nat,
    (multiSigLoopTraced rules stack scriptCode nKeysCount nSigsCount ikey isig).result =
      multiSigLoop rules stack scriptCode nKeysCount nSigsCount ikey isig := by
  intro nKeysCount
  induction nKeysCount with
  | zero =>
    intro nSigsCount ikey isig
    cases nSigsCount <;> rfl
  | succ nKeysCount ih =>
    intro nSigsCount ikey isig
    cases nSigsCount with
    | zero => rfl
    | succ nSigsCount =>
      simp only [multiSigLoopTraced, multiSigLoop, result_bind, result_lift]
      congr with vchSig
      congr with vchPubKey
      show rules.checkSig vchSig vchPubKey scriptCode >>= _ = _
      congr with fOk
      split_ifs <;> first | rfl | exact ih _ _ _

theorem evalCheckSigTraced_result (fVerify : Bool) (st : EvalState) :
    (evalCheckSigTraced rules fVerify st).result = evalCheckSig rules fVerify st := by
  simp only [evalCheckSigTraced, evalCheckSig, result_bind, result_lift, checkSigTraced]

theorem evalCheckMultiSigTraced_result (fVerify : Bool) (st : EvalState) :
    (evalCheckMultiSigTraced rules fVerify st).result = evalCheckMultiSig rules fVerify st := by
  simp only [evalCheckMultiSigTraced, evalCheckMultiSig, result_bind, result_lift, multiSigLoopTraced_result]

theorem evalOpTraced_result (fExec : Bool) (st : EvalState) (op : ScriptOp) :
    (evalOpTraced rules fExec st op).result = evalOp rules fExec st op := by
  cases op with
  | checkSig fVerify => exact evalCheckSigTraced_result fVerify st
  | checkMultiSig fVerify => exact evalCheckMultiSigTraced_result fVerify st
  | _ => rfl

theorem evalInstructionTraced_result (fExec : Bool) (opcode : Nat) (vchPushValue : Valtype) (st : EvalState) :
    (evalInstructionTraced rules fExec opcode vchPushValue st).result =
      evalInstruction rules fExec opcode vchPushValue st := by
  simp only [evalInstructionTraced, evalInstruction]
  split_ifs with hpush hexec
  · simp only [result_bind, result_lift, result_pure]
    rfl
  · cases scriptOp opcode with
    | none => rfl
    | some op => exact evalOpTraced_result fExec st op
  · rfl

theorem evalStepTraced_result (st : EvalState) : (evalStepTraced rules st).result = evalStep rules st := by
  simp only [evalStepTraced, evalStep, result_bind, result_lift, evalInstructionTraced_result, result_pure]
  rfl

theorem evalLoopTraced_result : ∀ (fuel : Nat) (st : EvalState),
    (evalLoopTraced rules fuel st).result = evalLoop rules fuel st := by
  intro fuel
  induction fuel with
  | zero =>
    intro st
    unfold evalLoopTraced evalLoop
    split_ifs <;> rfl
  | succ fuel ih =>
    intro st
    unfold evalLoopTraced evalLoop
    split_ifs
    · rfl
    · simp only [result_bind, evalStepTraced_result, ih]

theorem evalScriptTraced_result (stack : List Valtype) (script : CScript) :
    (evalScriptTraced rules stack script).result = evalScript rules stack script := by
  simp only [evalScriptTraced, evalScript, result_bind, result_lift, evalLoopTraced_result, result_pure]
  rfl

end Result

/-! ### What one round may check -/

/-- After an `OP_1 … OP_16` that is executed, its number is on top of the stack.  `lastOpcode` is the opcode
of the round before. -/
def CountedKeys (lastOpcode : Nat) (st : EvalState) : Prop :=
  OP_1 ≤ lastOpcode → lastOpcode ≤ OP_16 → st.vfExec.contains false = false →
    ∃ stack, st.stack = CScriptNum.serialize (decodeOpN lastOpcode) :: stack

/-- A sequence has the property if its last part does. -/
theorem safe_of_bind {α β : Type} {post : β → Prop} {m : Except EvalStop α} {f : α → Except EvalStop β}
    (hf : ∀ a, Safe (fun _ => False) post (f a)) : Safe (fun _ => False) post (m >>= f) := by
  cases m with
  | error e => exact not_false
  | ok a => exact hf a

section Bounds

variable {rules : EvalRules}

theorem pushAnswer_pc (st : EvalState) (stack : List Valtype) (fSuccess fVerify : Bool) :
    Safe (fun _ => False) (fun st' => st'.pc = st.pc) (pushAnswer st stack fSuccess fVerify) := by
  cases fVerify with
  | false => exact rfl
  | true => cases fSuccess <;> simp [pushAnswer, popstack]

theorem evalOp_pc (fExec : Bool) (st : EvalState) (op : ScriptOp) :
    Safe (fun _ => False) (fun st' => st'.pc = st.pc) (evalOp rules fExec st op) := by
  cases op <;> simp only [evalOp, evalCheckSig, evalCheckMultiSig]
  all_goals
    repeat' first
      | exact rfl
      | exact not_false
      | exact pushAnswer_pc _ _ _ _
      | refine safe_of_bind fun _ => ?_
      | split

theorem multiSigLoopTraced_logs (stack : List Valtype) (scriptCode : CScript) :
    ∀ nKeysCount nSigsCount ikey isig : Nat, LogsAtMost nKeysCount (fun _ => True)
      (multiSigLoopTraced rules stack scriptCode nKeysCount nSigsCount ikey isig) := by
  intro nKeysCount
  induction nKeysCount with
  | zero =>
    intro nSigsCount ikey isig
    cases nSigsCount <;> exact logsAtMost_pure trivial
  | succ nKeysCount ih =>
    intro nSigsCount ikey isig
    cases nSigsCount with
    | zero => exact logsAtMost_pure trivial
    | succ nSigsCount =>
      refine lift_bind fun vchSig _ => lift_bind fun vchPubKey _ => ?_
      have hcheck : LogsAtMost 1 (fun _ => True) (checkSigTraced rules vchSig vchPubKey scriptCode) :=
        ⟨le_rfl, fun _ _ => trivial⟩
      rw [Nat.add_comm]
      refine hcheck.bind fun fOk _ => ?_
      dsimp only
      split_ifs
      · exact logsAtMost_pure trivial
      · exact ih _ _ _
      · exact logsAtMost_pure trivial
      · exact ih _ _ _

theorem evalCheckSigTraced_logs (fVerify : Bool) (st : EvalState) :
    LogsAtMost 1 (fun _ => True) (evalCheckSigTraced rules fVerify st) := by
  refine lift_bind fun _ _ => lift_bind fun vchSig _ => lift_bind fun vchPubKey _ => ?_
  have hcheck : LogsAtMost 1 (fun _ => True)
      (checkSigTraced rules vchSig vchPubKey (st.codehash.findAndDelete (pushVch vchSig))) :=
    ⟨le_rfl, fun _ _ => trivial⟩
  refine (hcheck.bind (j := 0) fun fSuccess _ => ?_)
  refine lift_bind fun _ _ => lift_bind fun _ _ => ?_
  exact logsAtMost_lift fun _ _ => trivial

/-- A `CHECKMULTISIG` checks at most as many signatures as the number on top of the stack says. -/
theorem evalCheckMultiSigTraced_logs (fVerify : Bool) (st : EvalState) {k : Nat}
    (hkeys : ∀ vch bn, stacktop st.stack 1 = .ok vch →
      ofVch vch rules.fRequireMinimal = .ok bn → getint bn ≤ 20 → getint bn ≤ k) :
    LogsAtMost k (fun _ => True) (evalCheckMultiSigTraced rules fVerify st) := by
  refine lift_bind fun _ _ => lift_bind fun vch hvch => ?_
  refine lift_bind fun bn hbn => lift_bind fun _ hrange => ?_
  have hle : getint bn ≤ 20 := by
    by_contra hgt
    rw [Bool.or_eq_true_iff.mpr (.inr (decide_eq_true (not_le.mp hgt)))] at hrange
    cases hrange
  have hk := hkeys vch bn hvch hbn hle
  refine lift_bind fun _ _ => lift_bind fun _ _ => lift_bind fun _ _ => ?_
  refine lift_bind fun bnSigs _ => lift_bind fun _ _ => lift_bind fun _ _ => ?_
  refine lift_bind fun scriptCode _ => ?_
  have hloop : LogsAtMost (getint bn).toNat (fun _ => True) (multiSigLoopTraced rules st.stack scriptCode
      (getint bn).toNat (getint bnSigs).toNat 2 (2 + (getint bn).toNat + 1)) :=
    multiSigLoopTraced_logs st.stack scriptCode _ _ _ _
  refine ((hloop.bind (j := 0) (q := fun _ => True) fun fSuccess _ => ?_).mono (by omega) fun _ h => h)
  refine lift_bind fun _ _ => lift_bind fun _ _ => lift_bind fun _ _ => ?_
  refine lift_bind fun _ _ => lift_bind fun _ _ => ?_
  exact logsAtMost_lift fun _ _ => trivial

theorem getint_of_serialize {k : Nat} (hk : k ≤ 16) {m : Bool} {bn : Int}
    (h : ofVch (CScriptNum.serialize k) m = .ok bn) : getint bn = k := by
  have hall : ∀ (m : Bool) (k : Fin 17),
      ofVch (CScriptNum.serialize (k.val : Int)) m = .ok (k.val : Int) := by decide
  rw [show (k : Int) = ((⟨k, by omega⟩ : Fin 17).val : Int) from rfl, hall] at h
  obtain rfl := Except.ok.inj h
  rw [getint, if_neg (by omega), if_neg (by omega)]

theorem decodeOpN_le (h : opcode ≤ OP_16) : decodeOpN opcode ≤ 16 := by
  unfold decodeOpN
  rw [OP_16] at h
  rw [OP_1]
  split_ifs <;> omega

/-- What the multisig opcodes add to the accurate count is a bound for the number on top of the stack. -/
theorem keys_le_sigOps (h : CountedKeys lastOpcode st) (hexec : st.vfExec.contains false = false)
    (hop : opcode = OP_CHECKMULTISIG ∨ opcode = OP_CHECKMULTISIGVERIFY) {vch : Valtype} {bn : Int}
    (hvch : stacktop st.stack 1 = .ok vch) (hbn : ofVch vch rules.fRequireMinimal = .ok bn)
    (hle : getint bn ≤ 20) :
    getint bn ≤ sigOpsOf true lastOpcode opcode := by
  have hnot : ¬ (opcode = OP_CHECKSIG ∨ opcode = OP_CHECKSIGVERIFY) := by
    rcases hop with rfl | rfl <;> decide
  rw [sigOpsOf, if_neg hnot, if_pos hop]
  split_ifs with hlast
  · obtain ⟨stack, hstack⟩ := h hlast.2.1 hlast.2.2 hexec
    rw [hstack] at hvch
    obtain rfl := Except.ok.inj hvch
    exact (getint_of_serialize (decodeOpN_le hlast.2.2) hbn).le
  · exact hle

theorem opcode_of_checkSig {fVerify : Bool} (h : scriptOp opcode = some (.checkSig fVerify)) :
    opcode = OP_CHECKSIG ∨ opcode = OP_CHECKSIGVERIFY := by
  unfold scriptOp at h
  by_cases hnum : opcode = OP_1NEGATE ∨ OP_1 ≤ opcode ∧ opcode ≤ OP_16
  · rw [if_pos hnum] at h
    cases h
  · rw [if_neg hnum] at h
    split at h
    all_goals first
      | (cases h; exact .inl rfl)
      | (cases h; exact .inr rfl)
      | cases h
      | (split at h <;> cases h)

theorem opcode_of_checkMultiSig {fVerify : Bool} (h : scriptOp opcode = some (.checkMultiSig fVerify)) :
    opcode = OP_CHECKMULTISIG ∨ opcode = OP_CHECKMULTISIGVERIFY := by
  unfold scriptOp at h
  by_cases hnum : opcode = OP_1NEGATE ∨ OP_1 ≤ opcode ∧ opcode ≤ OP_16
  · rw [if_pos hnum] at h
    cases h
  · rw [if_neg hnum] at h
    split at h
    all_goals first
      | (cases h; exact .inl rfl)
      | (cases h; exact .inr rfl)
      | cases h
      | (split at h <;> cases h)

/-- The opcodes up to `OP_16` that are not pushes of bytes push a small number. -/
theorem pushNum_of_scriptOp {op : ScriptOp} (hle : opcode ≤ OP_16) (h : scriptOp opcode = some op) :
    ∃ n : Int, op = .pushNum n ∧ -1 ≤ n ∧ n ≤ 16 := by
  unfold scriptOp at h
  by_cases hnum : opcode = OP_1NEGATE ∨ OP_1 ≤ opcode ∧ opcode ≤ OP_16
  · rw [if_pos hnum] at h
    obtain rfl := Option.some.inj h
    simp only [OP_1NEGATE, OP_1, OP_16] at hnum ⊢
    exact ⟨_, rfl, by omega, by omega⟩
  · rw [if_neg hnum] at h
    rw [OP_16] at hle
    split at h
    all_goals first
      | omega
      | (split at h <;> first | omega | cases h)

theorem sigOpsOf_le (lastOpcode opcode : Nat) :
    sigOpsOf true lastOpcode opcode ≤ sigOpsOf false lastOpcode opcode := by
  simp only [sigOpsOf, Bool.false_eq_true, false_and, if_false]
  split_ifs with _ _ hlast
  · exact le_rfl
  · exact (decodeOpN_le hlast.2.2).trans (by omega)
  · exact le_rfl
  · exact le_rfl

theorem evalOpTraced_logs (h : CountedKeys lastOpcode st) (hexec : st.vfExec.contains false = false)
    {op : ScriptOp} (hop : scriptOp opcode = some op) (fExec : Bool) :
    LogsAtMost (sigOpsOf true lastOpcode opcode) (fun _ => True) (evalOpTraced rules fExec st op) := by
  cases op with
  | checkSig fVerify =>
    have hopcode : opcode = OP_CHECKSIG ∨ opcode = OP_CHECKSIGVERIFY := opcode_of_checkSig hop
    rw [sigOpsOf, if_pos hopcode]
    exact evalCheckSigTraced_logs fVerify st
  | checkMultiSig fVerify =>
    have hopcode : opcode = OP_CHECKMULTISIG ∨ opcode = OP_CHECKMULTISIGVERIFY := opcode_of_checkMultiSig hop
    exact evalCheckMultiSigTraced_logs fVerify st fun vch bn hvch hbn hle =>
      keys_le_sigOps h hexec hopcode hvch hbn hle
  | _ => exact (logsAtMost_lift fun _ _ => trivial).mono (Nat.zero_le _) fun _ h => h

/-- An `OP_1 … OP_16` pushes its number if it is executed. -/
theorem evalInstruction_countedKeys {fExec : Bool} {vch : Valtype} {st' : EvalState}
    (hexec : fExec = !st.vfExec.contains false)
    (h : evalInstruction rules fExec opcode vch st = .ok st') : CountedKeys opcode st' := by
  intro hlo hhi hexec'
  rw [OP_1] at hlo
  rw [OP_16] at hhi
  have hpush : ¬ opcode ≤ OP_PUSHDATA4 := by rw [OP_PUSHDATA4]; omega
  have hcond : ¬ (OP_IF ≤ opcode ∧ opcode ≤ OP_ENDIF) := by rw [OP_IF]; omega
  have hop : scriptOp opcode = some (.pushNum ((opcode : Int) - (OP_1 - 1 : Nat))) := by
    unfold scriptOp
    rw [if_pos (.inr ⟨by rw [OP_1]; omega, by rw [OP_16]; omega⟩)]
  unfold evalInstruction at h
  rw [decide_eq_false hpush, Bool.and_false, if_neg Bool.false_ne_true, hop] at h
  split_ifs at h with hrun
  · obtain rfl := Except.ok.inj h
    refine ⟨st.stack, ?_⟩
    have hdecode : (decodeOpN opcode : Int) = (opcode : Int) - (OP_1 - 1 : Nat) := by
      rw [decodeOpN, if_neg (by rw [OP_0]; omega), OP_1]
      omega
    rw [hdecode]
  · -- not executed, and the conditionals are as before
    obtain rfl := Except.ok.inj h
    rw [Bool.or_eq_true, not_or, hexec, hexec'] at hrun
    exact absurd rfl hrun.1

theorem evalInstruction_pc (fExec : Bool) (opcode : Nat) (vch : Valtype) (st : EvalState) :
    Safe (fun _ => False) (fun st' => st'.pc = st.pc) (evalInstruction rules fExec opcode vch st) := by
  unfold evalInstruction
  split_ifs
  · exact safe_of_bind fun _ => rfl
  · split
    · exact not_false
    · exact evalOp_pc _ _ _
  · exact rfl

theorem evalStep_pc (st : EvalState) :
    Safe (fun _ => False) (fun st' => st'.pc = (getOp2 st.pc).pc) (evalStep rules st) := by
  refine safe_of_bind fun _ => safe_of_bind fun _ => safe_of_bind fun _ => safe_of_bind fun _ => ?_
  exact (evalInstruction_pc _ _ _ _).bind fun st' hpc => safe_of_bind fun _ => hpc

theorem evalInstructionTraced_logs {fExec : Bool} (opcode : Nat) (vch : Valtype)
    (h : CountedKeys lastOpcode st) (hexec : fExec = !st.vfExec.contains false) :
    LogsAtMost (sigOpsOf true lastOpcode opcode) (fun st' => st'.pc = st.pc ∧ CountedKeys opcode st')
      (evalInstructionTraced rules fExec opcode vch st) := by
  refine ⟨?_, fun st' hst' => ?_⟩
  · unfold evalInstructionTraced
    split_ifs with hpush hrun
    · exact (lift_bind (k := 0) (q := fun _ => True) fun _ _ =>
        logsAtMost_pure trivial).length.trans (Nat.zero_le _)
    · cases hop : scriptOp opcode with
      | none => exact Nat.zero_le _
      | some op =>
        cases fExec with
        | true =>
          rw [eq_comm, Bool.not_eq_true'] at hexec
          exact (evalOpTraced_logs h hexec hop true).length
        | false =>
          -- the conditionals do not check signatures
          rw [Bool.false_or, Bool.and_eq_true, decide_eq_true_iff, decide_eq_true_iff, OP_IF, OP_ENDIF] at hrun
          cases op with
          | checkSig fVerify =>
            have hopcode := opcode_of_checkSig hop
            simp only [OP_CHECKSIG, OP_CHECKSIGVERIFY] at hopcode
            omega
          | checkMultiSig fVerify =>
            have hopcode := opcode_of_checkMultiSig hop
            simp only [OP_CHECKMULTISIG, OP_CHECKMULTISIGVERIFY] at hopcode
            omega
          | _ => exact Nat.zero_le _
    · exact Nat.zero_le _
  · rw [evalInstructionTraced_result] at hst'
    exact ⟨(evalInstruction_pc fExec opcode vch st).of_ok hst', evalInstruction_countedKeys hexec hst'⟩

/-- **One round** checks at most as many signatures as its instruction adds to the accurate count. -/
theorem evalStepTraced_logs (h : CountedKeys lastOpcode st) :
    LogsAtMost (sigOpsOf true lastOpcode (getOp2 st.pc).opcodeRet)
      (fun st' => (getOp2 st.pc).ok = true ∧ st'.pc = (getOp2 st.pc).pc ∧ CountedKeys (getOp2 st.pc).opcodeRet st')
      (evalStepTraced rules st) := by
  refine lift_bind fun _ hok => lift_bind fun _ _ => ?_
  refine lift_bind fun _ _ => lift_bind fun _ _ => ?_
  have hok : (getOp2 st.pc).ok = true := by
    cases hr : (getOp2 st.pc).ok with
    | true => rfl
    | false =>
      rw [hr] at hok
      cases hok
  have hread : CountedKeys lastOpcode { st with
      pc := (getOp2 st.pc).pc
      nOpCount := if OP_16 < (getOp2 st.pc).opcodeRet then st.nOpCount + 1 else st.nOpCount } := h
  refine (evalInstructionTraced_logs _ _ hread rfl).bind (j := 0) fun st' hst' => ?_
  exact lift_bind fun _ _ => logsAtMost_pure ⟨hok, hst'⟩

theorem evalStepTraced_log_of_not_ok (h : (getOp2 st.pc).ok = false) :
    LogsAtMost 0 (fun _ => False) (evalStepTraced rules st) := by
  refine lift_bind fun _ hok => ?_
  rw [h] at hok
  cases hok

/-! ### Whole scripts -/

theorem sigOpLoop_add (fAccurate : Bool) : ∀ (fuel n m lastOpcode : Nat) (pc : CScript),
    sigOpLoop fAccurate fuel (n + m) lastOpcode pc = n + sigOpLoop fAccurate fuel m lastOpcode pc := by
  intro fuel
  induction fuel with
  | zero => exact fun _ _ _ _ => rfl
  | succ fuel ih =>
    intro n m lastOpcode pc
    simp only [sigOpLoop]
    split_ifs
    · rfl
    · rw [Nat.add_assoc, ih]
    · rfl

theorem sigOpLoop_mono : ∀ (fuel n m lastOpcode : Nat) (pc : CScript), n ≤ m →
    sigOpLoop true fuel n lastOpcode pc ≤ sigOpLoop false fuel m lastOpcode pc := by
  intro fuel
  induction fuel with
  | zero => exact fun _ _ _ _ hnm => hnm
  | succ fuel ih =>
    intro n m lastOpcode pc hnm
    simp only [sigOpLoop]
    split_ifs
    · exact hnm
    · exact ih _ _ _ _ (Nat.add_le_add hnm (sigOpsOf_le lastOpcode _))
    · exact hnm

theorem getSigOpCount_le (script : CScript) : getSigOpCount script true ≤ getSigOpCount script false :=
  sigOpLoop_mono _ 0 0 _ script le_rfl

theorem evalLoopTraced_logs : ∀ (fuel : Nat) {lastOpcode : Nat} {st : EvalState}, CountedKeys lastOpcode st →
    LogsAtMost (sigOpLoop true fuel 0 lastOpcode st.pc) (fun _ => True) (evalLoopTraced rules fuel st) := by
  intro fuel
  induction fuel with
  | zero =>
    intro lastOpcode st _
    unfold evalLoopTraced
    split_ifs
    · exact logsAtMost_pure trivial
    · exact (logsAtMost_lift fun _ _ => trivial).mono (Nat.zero_le _) fun _ h => h
  | succ fuel ih =>
    intro lastOpcode st h
    unfold evalLoopTraced
    split_ifs with hpc
    · exact logsAtMost_pure trivial
    · rw [sigOpLoop, if_neg hpc]
      dsimp only
      cases hok : (getOp2 st.pc).ok with
      | false => exact (evalStepTraced_log_of_not_ok hok).bind (j := 0) fun st' hst' => hst'.elim
      | true =>
        rw [if_pos rfl, Nat.zero_add, ← Nat.add_zero (sigOpsOf true lastOpcode _), sigOpLoop_add]
        refine (evalStepTraced_logs h).bind fun st' hst' => ?_
        rw [← hst'.2.1]
        exact ih hst'.2.2

/-- **A script makes no more signature checks than its accurate count.** -/
theorem evalScriptTraced_log_le (stack : List Valtype) (script : CScript) :
    (evalScriptTraced rules stack script).log.length ≤ getSigOpCount script true := by
  have hstart : CountedKeys OP_INVALIDOPCODE { stack := stack, pc := script, codehash := script } :=
    fun _ hle => absurd hle (by decide)
  have hlogs : LogsAtMost (getSigOpCount script true) (fun _ => True) (evalScriptTraced rules stack script) :=
    lift_bind fun _ _ => (evalLoopTraced_logs _ hstart).bind (j := 0) fun _ _ =>
      lift_bind fun _ _ => logsAtMost_pure trivial
  exact hlogs.length

end Bounds

/-! ### The scripts that `VerifyScript` evaluates -/

section Verify

variable (rules : EvalRules)

def evalScriptLogged (stack : List Valtype) (script : CScript) : Traced EvalStop CScript (List Valtype) where
  log := [script]
  result := evalScript rules stack script

def evalP2SHTraced (scriptSig : CScript) (stackCopy : List Valtype) : Traced EvalStop CScript Unit := do
  failIf (!scriptSig.isPushOnly)
  let pubKeySerialized ← stacktop stackCopy 1
  let stackCopy ← popstack stackCopy
  let stackCopy ← evalScriptLogged rules stackCopy pubKeySerialized
  checkTop stackCopy

/-- `VerifyScript(scriptSig, scriptPubKey, txTo, …)` with a log of the scripts that it evaluates. -/
def verifyScriptTraced (scriptSig scriptPubKey : CScript) : Traced EvalStop CScript Unit := do
  let stack ← evalScriptLogged rules [] scriptSig
  let stackCopy := stack
  let stack ← evalScriptLogged rules stack scriptPubKey
  checkTop stack
  if scriptPubKey.isPayToScriptHash then evalP2SHTraced rules scriptSig stackCopy else pure ()

/-- `VerifyScript(scriptSig, scriptPubKey, flags, checker, serror)` with such a log. -/
def verifyCheckerTraced (flags : Nat) (scriptSig scriptPubKey : CScript) : Traced EvalStop CScript Unit := do
  failIf (flags.testBit SCRIPT_VERIFY_SIGPUSHONLY && !scriptSig.isPushOnly)
  let stack ← evalScriptLogged rules [] scriptSig
  let stackCopy := stack
  let stack ← evalScriptLogged rules stack scriptPubKey
  checkTop stack
  if flags.testBit SCRIPT_VERIFY_P2SH && scriptPubKey.isPayToScriptHash then
    evalP2SHTraced rules scriptSig stackCopy
  else pure ()

variable {rules}

theorem evalP2SHTraced_result (scriptSig : CScript) (stackCopy : List Valtype) :
    (evalP2SHTraced rules scriptSig stackCopy).result = evalP2SH rules scriptSig stackCopy := by
  simp only [evalP2SHTraced, evalP2SH, result_bind, result_lift, evalScriptLogged]

theorem verifyScriptTraced_result (scriptSig scriptPubKey : CScript) :
    (verifyScriptTraced rules scriptSig scriptPubKey).result = verifyScriptRun rules scriptSig scriptPubKey := by
  unfold verifyScriptTraced verifyScriptRun
  cases scriptPubKey.isPayToScriptHash with
  | true => simp only [result_bind, result_lift, evalScriptLogged, if_true, evalP2SHTraced_result]
  | false => simp only [result_bind, result_lift, evalScriptLogged, Bool.false_eq_true, if_false]; rfl

theorem verifyCheckerTraced_result (flags : Nat) (scriptSig scriptPubKey : CScript) :
    (verifyCheckerTraced rules flags scriptSig scriptPubKey).result =
      verifyCheckerRun rules flags scriptSig scriptPubKey := by
  unfold verifyCheckerTraced verifyCheckerRun
  cases flags.testBit SCRIPT_VERIFY_P2SH && scriptPubKey.isPayToScriptHash with
  | true => simp only [result_bind, result_lift, evalScriptLogged, if_true, evalP2SHTraced_result]
  | false => simp only [result_bind, result_lift, evalScriptLogged, Bool.false_eq_true, if_false]; rfl

theorem mem_evalP2SHTraced_log {scriptSig redeem : CScript} {stackCopy : List Valtype}
    (h : redeem ∈ (evalP2SHTraced rules scriptSig stackCopy).log) :
    scriptSig.isPushOnly = true ∧ stacktop stackCopy 1 = .ok redeem := by
  unfold evalP2SHTraced at h
  rw [log_lift_bind] at h
  cases hpush : scriptSig.isPushOnly with
  | false =>
    rw [hpush] at h
    cases h
  | true =>
    rw [hpush, Bool.not_true, failIf_false] at h
    dsimp only at h
    rw [log_lift_bind] at h
    cases htop : stacktop stackCopy 1 with
    | error e =>
      rw [htop] at h
      cases h
    | ok pubKeySerialized =>
      rw [htop] at h
      dsimp only at h
      rw [log_lift_bind] at h
      refine ⟨rfl, ?_⟩
      cases hpop : popstack stackCopy with
      | error e =>
        rw [hpop] at h
        cases h
      | ok stack =>
        rw [hpop] at h
        dsimp only at h
        cases hrun : evalScript rules stack pubKeySerialized with
        | error e =>
          rw [log_bind_error (m := evalScriptLogged rules stack pubKeySerialized) hrun] at h
          rw [List.mem_singleton.mp h]
        | ok stack' =>
          rw [log_bind_ok (m := evalScriptLogged rules stack pubKeySerialized) hrun] at h
          have hlog : (liftM (checkTop stack') : Traced EvalStop CScript Unit).log = [] := rfl
          rw [hlog, List.append_nil] at h
          rw [List.mem_singleton.mp h]

/-! ### The last push -/

/-- The accurate count of what is on top of the stack. -/
def topCount (stack : List Valtype) : Nat := getSigOpCount (stack.headD []) true

theorem getSigOpCount_serialize {n : Int} (hlo : -1 ≤ n) (hhi : n ≤ 16) :
    getSigOpCount (CScriptNum.serialize n) true = 0 := by
  have hall : ∀ k : Fin 18, getSigOpCount (CScriptNum.serialize ((k.val : Int) - 1)) true = 0 := by decide
  have h := hall ⟨(n + 1).toNat, by omega⟩
  rwa [show (((n + 1).toNat : Nat) : Int) - 1 = n by omega] at h

/-- A push leaves on the stack what counts like the data it has read, outside of any conditional. -/
theorem evalStep_push {st' : EvalState} (hpush : (getOp2 st.pc).opcodeRet ≤ OP_16)
    (hexec : st.vfExec = []) (h : evalStep rules st = .ok st') :
    (getOp2 st.pc).ok = true ∧ st'.pc = (getOp2 st.pc).pc ∧ st'.vfExec = [] ∧
      topCount st'.stack = getSigOpCount (getOp2 st.pc).vchRet true := by
  obtain ⟨pc, hpc⟩ : ∃ pc, pc = st.pc := ⟨_, rfl⟩
  unfold evalStep at h
  rw [← hpc] at h hpush ⊢
  obtain ⟨_, hok, h⟩ := bind_ok h
  obtain ⟨_, _, h⟩ := bind_ok h
  obtain ⟨_, _, h⟩ := bind_ok h
  obtain ⟨_, _, h⟩ := bind_ok h
  obtain ⟨st1, hinstr, h⟩ := bind_ok h
  obtain ⟨_, _, h⟩ := bind_ok h
  obtain rfl := Except.ok.inj h
  have hok : (getOp2 pc).ok = true := by
    cases hr : (getOp2 pc).ok with
    | true => rfl
    | false =>
      rw [hr] at hok
      cases hok
  refine ⟨hok, (evalInstruction_pc _ _ _ _).of_ok hinstr, ?_⟩
  rw [hexec] at hinstr
  unfold evalInstruction at hinstr
  by_cases hdata : (getOp2 pc).opcodeRet ≤ OP_PUSHDATA4
  · rw [if_pos (by simp [hdata])] at hinstr
    obtain ⟨_, _, hst'⟩ := bind_ok hinstr
    obtain rfl := Except.ok.inj hst'
    exact ⟨rfl, rfl⟩
  · rw [if_neg (by simp [hdata]), if_pos (by simp)] at hinstr
    have hvch : (getOp2 pc).vchRet = [] := (getOp2_push_or (getOp2_eq_of_ok hok)).resolve_left hdata
    rw [hvch]
    cases hop : scriptOp (getOp2 pc).opcodeRet with
    | none =>
      rw [hop] at hinstr
      cases hinstr
    | some op =>
      obtain ⟨n, rfl, hlo, hhi⟩ := pushNum_of_scriptOp hpush hop
      rw [hop] at hinstr
      obtain rfl := Except.ok.inj hinstr
      exact ⟨rfl, getSigOpCount_serialize hlo hhi⟩

/-- The last item that a push-only script has read counts like the one that its evaluation leaves on top. -/
theorem evalLoop_lastPush : ∀ (fuel : Nat) (data : List UInt8) {st st' : EvalState},
    pushOnlyLoop fuel st.pc = true → st.vfExec = [] → topCount st.stack = getSigOpCount data true →
    evalLoop rules fuel st = .ok st' →
    ∃ data', lastPushLoop fuel data st.pc = some data' ∧ topCount st'.stack = getSigOpCount data' true := by
  intro fuel
  induction fuel with
  | zero =>
    intro data st st' _ _ hcount h
    unfold evalLoop at h
    split_ifs at h
    obtain rfl := Except.ok.inj h
    exact ⟨data, rfl, hcount⟩
  | succ fuel ih =>
    intro data st st' hpush hexec hcount h
    unfold evalLoop at h
    rw [pushOnlyLoop] at hpush
    rw [lastPushLoop]
    split_ifs at h hpush ⊢ with hpc
    · obtain rfl := Except.ok.inj h
      exact ⟨data, rfl, hcount⟩
    · obtain ⟨st1, hstep, h⟩ := bind_ok h
      dsimp only at hpush ⊢
      split_ifs at hpush with hnok hgt
      have hle : (getOp2 st.pc).opcodeRet ≤ OP_16 := not_lt.mp hgt
      obtain ⟨-, hpc1, hexec1, hcount1⟩ := evalStep_push hle hexec hstep
      rw [if_neg hnok, if_neg hgt, ← hpc1]
      rw [← hpc1] at hpush
      exact ih _ hpush hexec1 hcount1 h

/-- What both `VerifyScript` functions have in common: the third script is evaluated by `next`. -/
theorem log_third {scriptSig scriptPubKey redeem : CScript} {next : List Valtype → Traced EvalStop CScript Unit}
    (h : (do
      let stack ← evalScriptLogged rules [] scriptSig
      let stackCopy := stack
      let stack ← evalScriptLogged rules stack scriptPubKey
      checkTop stack
      next stackCopy : Traced EvalStop CScript Unit).log[2]? = some redeem) :
    ∃ stackCopy, evalScript rules [] scriptSig = .ok stackCopy ∧ redeem ∈ (next stackCopy).log := by
  cases hsig : evalScript rules [] scriptSig with
  | error e =>
    rw [log_bind_error (m := evalScriptLogged rules [] scriptSig) hsig] at h
    cases h
  | ok stackCopy =>
    rw [log_bind_ok (m := evalScriptLogged rules [] scriptSig) hsig] at h
    dsimp only at h
    cases hkey : evalScript rules stackCopy scriptPubKey with
    | error e =>
      rw [log_bind_error (m := evalScriptLogged rules stackCopy scriptPubKey) hkey] at h
      cases h
    | ok stack =>
      rw [log_bind_ok (m := evalScriptLogged rules stackCopy scriptPubKey) hkey, log_lift_bind] at h
      refine ⟨stackCopy, rfl, ?_⟩
      cases htop : checkTop stack with
      | error e =>
        rw [htop] at h
        cases h
      | ok u =>
        rw [htop] at h
        exact List.mem_of_getElem? (i := 0) h

/-- The count of an input looks at the redeem script that its evaluation looks at. -/
theorem getSigOpCountP2SH_eq {scriptSig scriptPubKey redeem : CScript} {stackCopy : List Valtype}
    (hp2sh : scriptPubKey.isPayToScriptHash = true) (hsig : evalScript rules [] scriptSig = .ok stackCopy)
    (hredeem : redeem ∈ (evalP2SHTraced rules scriptSig stackCopy).log) :
    getSigOpCountP2SH scriptPubKey scriptSig = getSigOpCount redeem true := by
  obtain ⟨hpush, htop⟩ := mem_evalP2SHTraced_log hredeem
  obtain ⟨_, _, hsig⟩ := bind_ok hsig
  obtain ⟨st, hrun, hsig⟩ := bind_ok hsig
  obtain ⟨_, _, hsig⟩ := bind_ok hsig
  obtain rfl := Except.ok.inj hsig
  have hpush : pushOnlyLoop scriptSig.length (EvalState.start [] scriptSig).pc = true := hpush
  obtain ⟨data, hdata, hcount⟩ := evalLoop_lastPush scriptSig.length [] hpush rfl rfl hrun
  have hdata : lastPushLoop scriptSig.length [] scriptSig = some data := hdata
  rw [getSigOpCountP2SH, hp2sh, Bool.not_true, if_neg Bool.false_ne_true, hdata]
  dsimp only
  rw [← hcount, topCount]
  unfold stacktop at htop
  split_ifs at htop with hlen
  rw [← Except.ok.inj htop]
  cases st.stack with
  | nil => rfl
  | cons vch stack => rfl

end Verify

/-! ### The bound -/

/-- The calls of `CheckSig` that `EvalScript(stack, script, txTo, …)` makes: it comes after both encodings. -/
def checkSigCalls (crypto : ScriptCrypto) (txTo : CTransaction) (nIn flags : Nat) (nHashType : Int)
    (stack : List Valtype) (script : CScript) : Nat :=
  ((evalScriptTraced (evalRules crypto txTo nIn flags nHashType) stack script).log.filter fun check =>
    checkSignatureEncoding crypto check.vchSig && checkPubKeyEncoding check.vchPubKey).length

/-- The calls of `checker.CheckSig` that `EvalScript(stack, script, flags, checker, serror)` makes. -/
def checkerCalls (crypto : ScriptCrypto) (checker : Valtype → Valtype → CScript → Bool) (flags : Nat)
    (stack : List Valtype) (script : CScript) : Nat :=
  ((evalScriptTraced (checkerRules crypto checker flags) stack script).log.filter fun check =>
    checkSignatureEncodingFlags crypto check.vchSig flags && checkPubKeyEncodingFlags check.vchPubKey flags).length

/-- **Signature-operation counts bound the work**: neither interpreter calls `CheckSig` more often than the
accurate count of the script says, and when a redeem script is evaluated, the count of the input is its
accurate count.  Without the logs, the computations that are counted here are the interpreters. -/
theorem sigOpCount_bounds_checkSig (crypto : ScriptCrypto) (checker : Valtype → Valtype → CScript → Bool)
    (txTo : CTransaction) (nIn flags : Nat) (nHashType : Int) :
    (∀ (stack : List Valtype) (script : CScript),
      checkSigCalls crypto txTo nIn flags nHashType stack script ≤ getSigOpCount script true ∧
      checkerCalls crypto checker flags stack script ≤ getSigOpCount script true ∧
      getSigOpCount script true ≤ getSigOpCount script false) ∧
    (∀ scriptSig scriptPubKey redeem : CScript,
      (verifyScriptTraced (evalRules crypto txTo nIn flags nHashType) scriptSig scriptPubKey).log[2]? = some redeem ∨
        (verifyCheckerTraced (checkerRules crypto checker flags) flags scriptSig scriptPubKey).log[2]? = some redeem →
      getSigOpCountP2SH scriptPubKey scriptSig = getSigOpCount redeem true) ∧
    (∀ (rules : EvalRules) (stack : List Valtype) (script : CScript),
      (evalScriptTraced rules stack script).result = evalScript rules stack script) ∧
    ∀ (rules : EvalRules) (scriptSig scriptPubKey : CScript),
      (verifyScriptTraced rules scriptSig scriptPubKey).result = verifyScriptRun rules scriptSig scriptPubKey ∧
      (verifyCheckerTraced rules flags scriptSig scriptPubKey).result =
        verifyCheckerRun rules flags scriptSig scriptPubKey := by
  refine ⟨fun stack script => ⟨?_, ?_, getSigOpCount_le script⟩, fun scriptSig scriptPubKey redeem h => ?_,
    fun _ => evalScriptTraced_result,
    fun _ scriptSig scriptPubKey => ⟨verifyScriptTraced_result _ _, verifyCheckerTraced_result _ _ _⟩⟩
  · exact (List.length_filter_le _ _).trans (evalScriptTraced_log_le stack script)
  · exact (List.length_filter_le _ _).trans (evalScriptTraced_log_le stack script)
  rcases h with h | h
  · obtain ⟨stackCopy, hsig, hredeem⟩ := log_third h
    split_ifs at hredeem with hp2sh
    · exact getSigOpCountP2SH_eq hp2sh hsig hredeem
    · cases hredeem
  · unfold verifyCheckerTraced at h
    rw [log_lift_bind] at h
    split at h
    · obtain ⟨stackCopy, hsig, hredeem⟩ := log_third h
      split_ifs at hredeem with hp2sh
      · rw [Bool.and_eq_true] at hp2sh
        exact getSigOpCountP2SH_eq hp2sh.2 hsig hredeem
      · cases hredeem
    · cases h

/-- `OP_0 OP_IF OP_CHECKSIG OP_ENDIF OP_1`, whose check is counted and never made. -/
def sampleRedeem : CScript := [0x00, 0x63, 0xac, 0x68, 0x51]

def sampleScriptHash : CScript := 0xa9 :: 0x14 :: (List.replicate 20 0 ++ [0x87])

theorem sigOpCount_bounds_checkSig_redeem :
    checkSigCalls sampleCrypto { nTime := 0, vin := [], vout := [] } 0 0 0 [] sampleRedeem ≤ 1 ∧
      getSigOpCountP2SH sampleScriptHash (pushVch sampleRedeem) = 1 := by
  have hlog : (verifyScriptTraced (evalRules sampleCrypto { nTime := 0, vin := [], vout := [] } 0 0 0)
      (pushVch sampleRedeem) sampleScriptHash).log[2]? = some sampleRedeem := by decide +kernel
  have h := sigOpCount_bounds_checkSig sampleCrypto (fun _ _ _ => true) { nTime := 0, vin := [], vout := [] } 0 0 0
  have hcount : getSigOpCount sampleRedeem true = 1 := by decide
  refine ⟨(h.1 [] sampleRedeem).1.trans_eq hcount, ?_⟩
  rw [h.2.1 (pushVch sampleRedeem) sampleScriptHash sampleRedeem (.inl hlog), hcount]

end Sphinx
