import Sphinx.AcceptToMemoryPool
import Sphinx.Equiv.ConnectBlock
import Sphinx.Script.Equiv.Interpreter

/-!
# Script flags only restrict

With more flags an evaluation can stop earlier, and while both go on they are in the same state: a flag fails
the script at once and never changes what is pushed.

* `evalOp_implies`, `evalScript_implies`: one opcode and one script under two sets of rules;
* `verifyScript_of_more_flags`: what `VerifyScript` accepts with some flags, it accepts with fewer, so that
  `AcceptToMemoryPool` does not find a transaction that has passed the standard flags only.
-/

namespace Sphinx

open Checked

variable {crypto : ScriptCrypto}

/-- The first rules fail whatever the second fail, and give the same answers otherwise. -/
structure EvalRules.Restricts (g f : EvalRules) : Prop where
  crypto : g.crypto = f.crypto
  minimal : f.fRequireMinimal = true → g.fRequireMinimal = true
  push : ∀ vch opcode, g.checkPush vch opcode = true → f.checkPush vch opcode = true
  nops : f.fDiscourageNops = true → g.fDiscourageNops = true
  dummy : f.fNullDummy = true → g.fNullDummy = true
  checkSig : ∀ vchSig vchPubKey scriptCode,
    Implies (g.checkSig vchSig vchPubKey scriptCode) (f.checkSig vchSig vchPubKey scriptCode)

theorem implies_failIf {c c' : Bool} (h : c' = true → c = true) : Implies (failIf c) (failIf c') := by
  cases c with
  | true => exact implies_error
  | false =>
    cases c' with
    | true => cases h rfl
    | false => exact .refl _

theorem implies_ofVch {vch : Valtype} {m m' : Bool} (h : m' = true → m = true) :
    Implies (CScriptNum.ofVch vch m) (CScriptNum.ofVch vch m') := by
  cases m with
  | true =>
    cases m' with
    | true => exact .refl _
    | false =>
      unfold CScriptNum.ofVch
      split
      · exact .refl _
      · rw [Bool.false_and, if_neg Bool.false_ne_true]
        split
        · exact implies_error
        · exact .refl _
  | false =>
    cases m' with
    | true => cases h rfl
    | false => exact .refl _

section

variable {g f : EvalRules}

section

variable (h : g.Restricts f)

include h

theorem multiSigLoop_implies (stack : List Valtype) (scriptCode : CScript) :
    ∀ nKeysCount nSigsCount ikey isig : Nat,
      Implies (multiSigLoop g stack scriptCode nKeysCount nSigsCount ikey isig)
        (multiSigLoop f stack scriptCode nKeysCount nSigsCount ikey isig) := by
  intro nKeysCount
  induction nKeysCount with
  | zero =>
    intro nSigsCount ikey isig
    cases nSigsCount <;> exact .refl _
  | succ nKeysCount ih =>
    intro nSigsCount ikey isig
    cases nSigsCount with
    | zero => exact .refl _
    | succ nSigsCount =>
      rw [multiSigLoop, multiSigLoop]
      refine (Implies.refl _).bind fun vchSig => ?_
      refine (Implies.refl _).bind fun vchPubKey => ?_
      refine (h.checkSig vchSig vchPubKey scriptCode).bind fun fOk => ?_
      cases fOk with
      | false =>
        simp only [Bool.false_eq_true, if_false]
        split
        · exact .refl _
        · exact ih _ _ _
      | true =>
        simp only [if_true]
        split
        · exact .refl _
        · exact ih _ _ _

theorem evalCheckSig_implies (fVerify : Bool) (st : EvalState) :
    Implies (evalCheckSig g fVerify st) (evalCheckSig f fVerify st) := by
  unfold evalCheckSig
  refine (Implies.refl _).bind fun _ => ?_
  refine (Implies.refl _).bind fun vchSig => ?_
  refine (Implies.refl _).bind fun vchPubKey => ?_
  exact (h.checkSig _ _ _).bind fun _ => .refl _

theorem evalCheckMultiSig_implies (fVerify : Bool) (st : EvalState) :
    Implies (evalCheckMultiSig g fVerify st) (evalCheckMultiSig f fVerify st) := by
  unfold evalCheckMultiSig
  refine (Implies.refl _).bind fun _ => ?_
  refine (Implies.refl _).bind fun vch => ?_
  refine (implies_ofVch h.minimal).bind fun bnKeys => ?_
  refine (Implies.refl _).bind fun _ => ?_
  refine (Implies.refl _).bind fun _ => ?_
  refine (Implies.refl _).bind fun _ => ?_
  refine (Implies.refl _).bind fun vch => ?_
  refine (implies_ofVch h.minimal).bind fun bnSigs => ?_
  refine (Implies.refl _).bind fun _ => ?_
  refine (Implies.refl _).bind fun _ => ?_
  refine (Implies.refl _).bind fun scriptCode => ?_
  refine (multiSigLoop_implies h _ _ _ _ _ _).bind fun fSuccess => ?_
  refine (Implies.refl _).bind fun stack => ?_
  refine (Implies.refl _).bind fun _ => ?_
  refine (Implies.refl _).bind fun vch => ?_
  refine (implies_failIf fun hc => ?_).bind fun _ => .refl _
  rw [Bool.and_eq_true] at hc ⊢
  exact ⟨h.dummy hc.1, hc.2⟩

/-- **One opcode.**  Only the opcodes with numbers or signatures and the unused ones look at the rules. -/
theorem evalOp_implies (fExec : Bool) (st : EvalState) (op : ScriptOp) :
    Implies (evalOp g fExec st op) (evalOp f fExec st op) := by
  cases op with
  | upgradableNop => exact (implies_failIf h.nops).bind fun _ => .refl _
  | pick fRoll =>
    refine (Implies.refl _).bind fun _ => ?_
    refine (Implies.refl _).bind fun vch => ?_
    exact (implies_ofVch h.minimal).bind fun bn => .refl _
  | unary op =>
    refine (Implies.refl _).bind fun _ => ?_
    refine (Implies.refl _).bind fun vch => ?_
    exact (implies_ofVch h.minimal).bind fun bn => .refl _
  | binary op =>
    refine (Implies.refl _).bind fun _ => ?_
    refine (Implies.refl _).bind fun vch1 => ?_
    refine (implies_ofVch h.minimal).bind fun bn1 => ?_
    refine (Implies.refl _).bind fun vch2 => ?_
    exact (implies_ofVch h.minimal).bind fun bn2 => .refl _
  | within =>
    refine (Implies.refl _).bind fun _ => ?_
    refine (Implies.refl _).bind fun vch1 => ?_
    refine (implies_ofVch h.minimal).bind fun bn1 => ?_
    refine (Implies.refl _).bind fun vch2 => ?_
    refine (implies_ofVch h.minimal).bind fun bn2 => ?_
    refine (Implies.refl _).bind fun vch3 => ?_
    exact (implies_ofVch h.minimal).bind fun bn3 => .refl _
  | hash op =>
    simp only [evalOp, h.crypto]
    exact .refl _
  | checkSig fVerify => exact evalCheckSig_implies h fVerify st
  | checkMultiSig fVerify => exact evalCheckMultiSig_implies h fVerify st
  | _ => exact .refl _

theorem evalStep_implies (st : EvalState) :
    Implies (evalStep g st) (evalStep f st) := by
  unfold evalStep
  refine (Implies.refl _).bind fun _ => ?_
  refine (Implies.refl _).bind fun _ => ?_
  refine (Implies.refl _).bind fun _ => ?_
  refine (Implies.refl _).bind fun _ => ?_
  refine Implies.bind ?_ fun st' => .refl _
  unfold evalInstruction
  split
  · refine (implies_failIf fun hc => ?_).bind fun _ => .refl _
    rw [Bool.not_eq_true'] at hc ⊢
    by_contra hpush
    rw [h.push _ _ (Bool.eq_true_of_not_eq_false hpush)] at hc
    cases hc
  · split
    · split
      · exact .refl _
      · exact evalOp_implies h _ _ _
    · exact .refl _

theorem evalLoop_implies : ∀ (fuel : Nat) (st : EvalState),
    Implies (evalLoop g fuel st) (evalLoop f fuel st) := by
  intro fuel
  induction fuel with
  | zero =>
    intro st
    rw [evalLoop, evalLoop]
    exact .refl _
  | succ fuel ih =>
    intro st
    rw [evalLoop, evalLoop]
    split
    · exact .refl _
    · exact (evalStep_implies h st).bind ih

theorem evalScript_implies (stack : List Valtype) (script : CScript) :
    Implies (evalScript g stack script) (evalScript f stack script) := by
  unfold evalScript
  refine (Implies.refl _).bind fun _ => ?_
  exact (evalLoop_implies h _ _).bind fun st => .refl _

theorem evalP2SH_implies (scriptSig : CScript) (stackCopy : List Valtype) :
    Implies (evalP2SH g scriptSig stackCopy) (evalP2SH f scriptSig stackCopy) := by
  unfold evalP2SH
  refine (Implies.refl _).bind fun _ => ?_
  refine (Implies.refl _).bind fun pubKey2 => ?_
  refine (Implies.refl _).bind fun stack => ?_
  exact (evalScript_implies h stack pubKey2).bind fun stack => .refl _

theorem verifyScriptRun_implies (scriptSig scriptPubKey : CScript) :
    Implies (verifyScriptRun g scriptSig scriptPubKey) (verifyScriptRun f scriptSig scriptPubKey) := by
  unfold verifyScriptRun
  refine (evalScript_implies h [] scriptSig).bind fun stackCopy => ?_
  refine (evalScript_implies h stackCopy scriptPubKey).bind fun stack => ?_
  refine (Implies.refl _).bind fun _ => ?_
  split
  · exact evalP2SH_implies h scriptSig stackCopy
  · exact .refl _

end

end

/-! ### The flags of `VerifyScript` -/

/-- The flags of `F` are among those of `G`. -/
def FlagsLe (F G : Nat) : Prop := ∀ i, F.testBit i = true → G.testBit i = true

theorem evalRules_restricts (crypto : ScriptCrypto) (txTo : CTransaction) (nIn : Nat) (nHashType : Int)
    {F G : Nat} (h : FlagsLe F G) :
    (evalRules crypto txTo nIn G nHashType).Restricts (evalRules crypto txTo nIn F nHashType) where
  crypto := rfl
  minimal := h _
  push _ _ hpush := hpush
  nops := h _
  dummy := h _
  checkSig vchSig vchPubKey scriptCode := by
    refine (implies_failIf fun hc => ?_).bind fun _ => .refl _
    rw [Bool.and_eq_true] at hc ⊢
    exact ⟨h _ hc.1, hc.2⟩

theorem isOk_of_implies {m m' : Except EvalStop Unit} (h : Implies m m') (hm : m.isOk = true) :
    m'.isOk = true := by
  cases m with
  | error e => cases hm
  | ok a =>
    rw [h a rfl]
    rfl

theorem verifyScript_of_flagsLe {scriptSig scriptPubKey : CScript} {txTo : CTransaction} {nIn F G : Nat}
    {nHashType : Int} (h : FlagsLe F G)
    (hok : verifyScript crypto scriptSig scriptPubKey txTo nIn G nHashType = true) :
    verifyScript crypto scriptSig scriptPubKey txTo nIn F nHashType = true :=
  isOk_of_implies (verifyScriptRun_implies (evalRules_restricts crypto txTo nIn nHashType h) _ _) hok

/-! ### Connecting inputs with fewer flags -/

section Connect

variable {env : Env} {F G : Nat}

theorem checkInputSig_implies (henv : env.verifyScript = verifyScript crypto) (h : FlagsLe F G)
    (ctx : Ctx) (tx txPrev : CTransaction) (i : Nat) (fBlock fValidateSig : Bool) :
    Implies (checkInputSig env ctx tx txPrev i fBlock G fValidateSig)
      (checkInputSig env ctx tx txPrev i fBlock F fValidateSig) := by
  unfold checkInputSig
  split
  · by_cases hG : env.verifySignature txPrev tx i G 0 = true
    · have hF : env.verifySignature txPrev tx i F 0 = true := by
        unfold Env.verifySignature at hG ⊢
        rw [henv] at hG ⊢
        split at hG
        · cases hG
        · split at hG
          · cases hG
          · split_ifs at hG ⊢
            exact verifyScript_of_flagsLe h hG
      rw [if_pos hF]
      intro u _
      rfl
    · rw [if_neg hG]
      split
      · exact implies_error
      · exact implies_error
  · exact .refl _

theorem connectInputs_implies (henv : env.verifyScript = verifyScript crypto) (h : FlagsLe F G)
    (ctx : Ctx) (mapBlockIndex : BlockMap) (tx : CTransaction) (inputs : MapPrevTx)
    (mapTestPool : StdMap Uint256 CTxIndex) (posThisTx : CDiskTxPos) (pindexBlock : Option Uint256)
    (fBlock fMiner fValidateSig : Bool) :
    Implies (connectInputs env ctx mapBlockIndex tx inputs mapTestPool posThisTx pindexBlock fBlock fMiner G
        fValidateSig)
      (connectInputs env ctx mapBlockIndex tx inputs mapTestPool posThisTx pindexBlock fBlock fMiner F
        fValidateSig) := by
  unfold connectInputs
  split
  · exact .refl _
  · refine (Implies.refl _).bind fun nValueIn => ?_
    refine Implies.bind (.foldlM (fun st prevoutI => ?_) _ _) fun st => .refl _
    unfold spendInput
    dsimp only
    split
    · exact .refl _
    · refine (Implies.refl _).bind fun _ => ?_
      exact (checkInputSig_implies henv h _ _ _ _ _ _).bind fun _ => .refl _

end Connect

theorem mandatory_flagsLe : FlagsLe mandatoryScriptVerifyFlags standardScriptVerifyFlags := by
  intro i hi
  rw [mandatoryScriptVerifyFlags, Nat.zero_testBit] at hi
  cases hi

/-- **Flags only restrict**: what is accepted with flags `G` is accepted with any of them; so the second
`ConnectInputs` of `AcceptToMemoryPool` does not fail after the first. -/
theorem verifyScript_of_more_flags (crypto : ScriptCrypto) :
    (∀ (scriptSig scriptPubKey : CScript) (txTo : CTransaction) (nIn F G : Nat) (nHashType : Int),
      FlagsLe F G → verifyScript crypto scriptSig scriptPubKey txTo nIn G nHashType = true →
        verifyScript crypto scriptSig scriptPubKey txTo nIn F nHashType = true) ∧
    (∀ (env : Env), env.verifyScript = verifyScript crypto →
      ∀ (ctx : Ctx) (node : Node) (tx : CTransaction) (mapInputs : MapPrevTx) (r : Reject),
        (connectInputs env ctx node.mapBlockIndex tx mapInputs ∅ CDiskTxPos.memoryPool node.pindexBest
          false false standardScriptVerifyFlags).isOk = true →
        connectInputs env ctx node.mapBlockIndex tx mapInputs ∅ CDiskTxPos.memoryPool node.pindexBest
          false false mandatoryScriptVerifyFlags ≠ .error r) := by
  refine ⟨fun _ _ _ _ _ _ _ hle hok => verifyScript_of_flagsLe hle hok,
    fun env henv ctx node tx mapInputs r hok herr => ?_⟩
  have himplies := connectInputs_implies henv mandatory_flagsLe ctx node.mapBlockIndex tx mapInputs ∅
    CDiskTxPos.memoryPool node.pindexBest false false true
  cases hstandard : connectInputs env ctx node.mapBlockIndex tx mapInputs ∅ CDiskTxPos.memoryPool
      node.pindexBest false false standardScriptVerifyFlags with
  | error e =>
    rw [hstandard] at hok
    cases hok
  | ok pool =>
    rw [himplies pool hstandard] at herr
    cases herr

/-- `<33 bytes> CHECKSIG`. -/
def keyScript : CScript := 0x21 :: 2 :: List.replicate 32 0 ++ [0xac]

def keyTx : CTransaction :=
  { nTime := 1, vin := [⟨⟨7, 0⟩, [], uintMax⟩], vout := [⟨5 * coin, keyScript, -10⟩] }

/-- Its input is signed, in strict DER and with a defined hash type. -/
def keySpend : CTransaction :=
  { nTime := 2, vin := [⟨⟨1001, 0⟩, [9, 0x30, 6, 2, 1, 1, 2, 1, 1, 1], uintMax⟩], vout := [⟨5 * coin, [1], -10⟩] }

def scriptEnv : Env :=
  { sampleEnv [] with verifyScript := verifyScript sampleCrypto }

def keyInputs : MapPrevTx := AList.insert 1001 (CTxIndex.mk' .null 1, keyTx) ∅

theorem verifyScript_of_more_flags_signed :
    verifyScript sampleCrypto [9, 0x30, 6, 2, 1, 1, 2, 1, 1, 1] keyScript keySpend 0 2 0 = true ∧
    ∀ r, connectInputs scriptEnv sampleCtx (sampleNode []).mapBlockIndex keySpend keyInputs ∅
      CDiskTxPos.memoryPool (sampleNode []).pindexBest false false mandatoryScriptVerifyFlags ≠ .error r := by
  have h := verifyScript_of_more_flags sampleCrypto
  refine ⟨h.1 _ _ keySpend 0 2 standardScriptVerifyFlags 0 ?_ (by decide +kernel),
    fun r => h.2 scriptEnv rfl sampleCtx (sampleNode []) keySpend keyInputs r (by decide +kernel)⟩
  intro i hi
  rw [standardScriptVerifyFlags, Nat.testBit_or, Nat.testBit_or, hi]
  rfl

end Sphinx
