import Sphinx.Script.Equiv.CheckMultiSig
import Sphinx.Script.Equiv.Solver

/-!
# Running standard scripts

How the interpreters run what `Solver` recognises, under any rules that ask for no minimal encoding.

* `evalLoop_push`, `evalLoop_ok`: one round, for a push and for an opcode that goes on;
* `evalScript_pushAll`: the stack that a script of pushes leaves;
* `evalScript_pubkey`, `evalScript_pubkeyhash`, `evalScript_multisig`, `evalScript_scripthash`: a standard
  script leaves the answer to its signature checks.
-/

namespace Sphinx

variable {sop : ScriptOp} {vchSig vchPubKey : Valtype}

/-- Neither pushes nor numbers need to be minimal. -/
structure EvalRules.Plain (rules : EvalRules) : Prop where
  minimal : rules.fRequireMinimal = false
  push : ∀ vch opcode, rules.checkPush vch opcode = true

section Eval

open CScript

variable {rules : EvalRules} {pc rest code : CScript} {op n fuel : Nat} {vch : Valtype} {stack : List Valtype}

theorem evalLoop_nil (fuel : Nat) (st : EvalState) (h : st.pc = []) : evalLoop rules fuel st = .ok st := by
  unfold evalLoop
  rw [h]
  rfl

theorem evalLoop_cons {st : EvalState} (h : getOp2 st.pc = ⟨true, op, vch, rest⟩) :
    evalLoop rules (fuel + 1) st = evalStep rules st >>= evalLoop rules fuel := by
  have hne : st.pc.isEmpty = false := by
    cases hpc : st.pc with
    | nil =>
      rw [hpc] at h
      cases h
    | cons _ _ => rfl
  rw [evalLoop, hne]
  rfl

theorem evalStep_eq (h : getOp2 pc = ⟨true, op, vch, rest⟩) (hop : disabledOpcodes.contains op = false)
    (hn : n < 201) :
    evalStep rules ⟨stack, [], [], n, pc, code⟩ = (do
      failIf (520 < vch.length)
      let st ← evalInstruction rules true op vch
        ⟨stack, [], [], if OP_16 < op then n + 1 else n, rest, code⟩
      failIf (1000 < st.stack.length + st.altstack.length)
      return st) := by
  have hcount : decide (201 < if OP_16 < op then n + 1 else n) = false := by
    rw [decide_eq_false_iff_not]
    split_ifs <;> omega
  simp only [evalStep, h, hop, hcount, Bool.and_false]
  rfl

theorem evalInstruction_push (hr : rules.Plain) (hop : op ≤ OP_PUSHDATA4) (st : EvalState) :
    evalInstruction rules true op vch st = .ok { st with stack := vch :: st.stack } := by
  rw [evalInstruction, Bool.true_and, if_pos (decide_eq_true hop), hr.push]
  rfl

theorem evalInstruction_op (hop : OP_PUSHDATA4 < op) (hsop : scriptOp op = some sop) (st : EvalState) :
    evalInstruction rules true op vch st = evalOp rules true st sop := by
  rw [evalInstruction, Bool.true_and, if_neg (by rw [decide_eq_true_eq]; omega), Bool.true_or, if_pos rfl, hsop]

theorem notDisabled_of_push (hop : op ≤ OP_PUSHDATA4) : disabledOpcodes.contains op = false := by
  rw [OP_PUSHDATA4] at hop
  rw [List.contains_eq_mem, decide_eq_false_iff_not, disabledOpcodes]
  intro hmem
  simp only [List.mem_cons, List.not_mem_nil, or_false] at hmem
  omega

/-- A push fails if it is larger than an element can be, or if the stack is full. -/
theorem evalLoop_push (hr : rules.Plain) (h : getOp2 pc = ⟨true, op, vch, rest⟩) (hop : op ≤ OP_PUSHDATA4)
    (hn : n < 201) :
    evalLoop rules (fuel + 1) ⟨stack, [], [], n, pc, code⟩ =
      if vch.length ≤ 520 ∧ stack.length < 1000 then evalLoop rules fuel ⟨vch :: stack, [], [], n, rest, code⟩
      else .error .fail := by
  have h16 : ¬ OP_16 < op := by
    rw [OP_PUSHDATA4] at hop
    rw [OP_16]
    omega
  rw [evalLoop_cons h, evalStep_eq h (notDisabled_of_push hop) hn, if_neg h16, evalInstruction_push hr hop]
  by_cases hlen : vch.length ≤ 520
  · rw [decide_eq_false (not_lt.mpr hlen)]
    by_cases hstack : stack.length < 1000
    · have hsize : decide (1000 < (vch :: stack).length + ([] : List Valtype).length) = false :=
        decide_eq_false (by rw [List.length_cons, List.length_nil]; omega)
      rw [if_pos ⟨hlen, hstack⟩]
      simp only [failIf_false, bind, Except.bind, hsize, pure, Except.pure]
    · have hsize : decide (1000 < (vch :: stack).length + ([] : List Valtype).length) = true :=
        decide_eq_true (by rw [List.length_cons, List.length_nil]; omega)
      rw [if_neg fun hboth => hstack hboth.2]
      simp only [failIf_false, failIf_true, bind, Except.bind, hsize]
  · rw [decide_eq_true (not_le.mp hlen), if_neg fun hboth => hlen hboth.1]
    rfl

/-- An instruction that is no push. -/
theorem evalLoop_op (h : getOp2 pc = ⟨true, op, [], rest⟩) (hgt : OP_PUSHDATA4 < op)
    (hop : disabledOpcodes.contains op = false) (hsop : scriptOp op = some sop) (hn : n < 201) :
    evalLoop rules (fuel + 1) ⟨stack, [], [], n, pc, code⟩ = (do
      let st ← evalOp rules true ⟨stack, [], [], if OP_16 < op then n + 1 else n, rest, code⟩ sop
      failIf (1000 < st.stack.length + st.altstack.length)
      evalLoop rules fuel st) := by
  rw [evalLoop_cons h, evalStep_eq h hop hn, evalInstruction_op hgt hsop]
  simp only [List.length_nil, bind_assoc, pure_bind]
  rfl

/-! ### The scripts -/

variable {script : CScript}

theorem evalScript_eq (hlen : script.length ≤ 10000) :
    evalScript rules stack script = (do
      let st ← evalLoop rules script.length ⟨stack, [], [], 0, script, script⟩
      failIf (!st.vfExec.isEmpty)
      return st.stack) := by
  rw [evalScript, decide_eq_false (not_lt.mpr hlen)]
  rfl

theorem evalScript_length {result : List Valtype} (h : evalScript rules stack script = .ok result) :
    script.length ≤ 10000 := by
  by_contra hlt
  rw [evalScript, decide_eq_true (not_le.mp hlt)] at h
  cases h

theorem evalCheckSig_eq :
    evalCheckSig rules false ⟨vchPubKey :: vchSig :: stack, [], [], n, pc, code⟩ = (do
      let f ← rules.checkSig vchSig vchPubKey (code.findAndDelete (pushVch vchSig))
      return ⟨vchBool f :: stack, [], [], n, pc, code⟩) := by
  have hsize : decide ((vchPubKey :: vchSig :: stack).length < 2) = false :=
    decide_eq_false (by rw [List.length_cons, List.length_cons]; omega)
  simp only [evalCheckSig, hsize, failIf_false, stacktop_one, stacktop_two, bind, Except.bind]
  rfl

theorem evalLoop_checkSig (h : getOp2 pc = ⟨true, OP_CHECKSIG, [], []⟩) (hn : n < 201)
    (hstack : stack.length < 1000) :
    (do
      let st ← evalLoop rules (fuel + 1) ⟨vchPubKey :: vchSig :: stack, [], [], n, pc, code⟩
      failIf (!st.vfExec.isEmpty)
      return st.stack) = (do
      let f ← rules.checkSig vchSig vchPubKey (code.findAndDelete (pushVch vchSig))
      return vchBool f :: stack) := by
  rw [evalLoop_op h (by decide) (by decide) rfl hn]
  simp only [evalOp, evalCheckSig_eq]
  cases rules.checkSig vchSig vchPubKey (code.findAndDelete (pushVch vchSig)) with
  | error e => rfl
  | ok f =>
    have hsize : decide (1000 < (vchBool f :: stack).length + ([] : List Valtype).length) = false :=
      decide_eq_false (by rw [List.length_cons, List.length_nil]; omega)
    simp only [bind, Except.bind, pure, Except.pure, hsize, failIf_false, evalLoop_nil, List.isEmpty_nil,
      Bool.not_true]

/-- `<pubkey> CHECKSIG`. -/
theorem evalScript_pubkey (hr : rules.Plain) (h : Reads script [(op, vchPubKey), (OP_CHECKSIG, [])])
    (hsize : isPubKeySize vchPubKey = true) (hlen : script.length ≤ 10000) (hstack : stack.length < 999) :
    evalScript rules (vchSig :: stack) script = (do
      let f ← rules.checkSig vchSig vchPubKey (script.findAndDelete (pushVch vchSig))
      return vchBool f :: stack) := by
  obtain ⟨fuel, hfuel⟩ := h.exists_fuel
  obtain - | ⟨h1, h⟩ := h
  obtain - | ⟨h2, h⟩ := h
  obtain - | - := h
  rw [isPubKeySize, Bool.and_eq_true, decide_eq_true_eq, decide_eq_true_eq] at hsize
  have hop : op ≤ OP_PUSHDATA4 := isPush_of_size (n := 0) h1 (by omega)
  rw [evalScript_eq hlen, hfuel]
  rw [show fuel + [(op, vchPubKey), (OP_CHECKSIG, [])].length = fuel + 1 + 1 from rfl]
  rw [evalLoop_push hr h1 hop (by omega), if_pos ⟨by omega, by rw [List.length_cons]; omega⟩]
  exact evalLoop_checkSig h2 (by omega) (by omega)

/-- An opcode that goes on with another stack. -/
theorem evalLoop_ok {stack' : List Valtype} {n' : Nat} (h : getOp2 pc = ⟨true, op, [], rest⟩)
    (hgt : OP_PUSHDATA4 < op) (hop : disabledOpcodes.contains op = false)
    (hsop : scriptOp op = some sop) (hn : n < 201) (hn' : (if OP_16 < op then n + 1 else n) = n')
    (heval : evalOp rules true ⟨stack, [], [], n', rest, code⟩ sop = .ok ⟨stack', [], [], n', rest, code⟩)
    (hstack : stack'.length ≤ 1000) :
    evalLoop rules (fuel + 1) ⟨stack, [], [], n, pc, code⟩ =
      evalLoop rules fuel ⟨stack', [], [], n', rest, code⟩ := by
  have hsize : decide (1000 < stack'.length + ([] : List Valtype).length) = false :=
    decide_eq_false (by rw [List.length_nil]; omega)
  rw [evalLoop_op h hgt hop hsop hn, hn', heval]
  simp only [bind, Except.bind, hsize, failIf_false]

theorem evalLoop_dup (h : getOp2 pc = ⟨true, OP_DUP, [], rest⟩) (hn : n < 201) (hstack : stack.length < 999) :
    evalLoop rules (fuel + 1) ⟨vch :: stack, [], [], n, pc, code⟩ =
      evalLoop rules fuel ⟨vch :: vch :: stack, [], [], n + 1, rest, code⟩ := by
  refine evalLoop_ok h (by decide) (by decide) rfl hn rfl ?_ (by rw [List.length_cons, List.length_cons]; omega)
  have hsize : decide ((vch :: stack).length < 1) = false :=
    decide_eq_false (by rw [List.length_cons]; omega)
  simp only [evalOp, hsize, failIf_false, stacktop_one, bind, Except.bind]
  rfl

theorem evalLoop_hash160 (h : getOp2 pc = ⟨true, OP_HASH160, [], rest⟩) (hn : n < 201)
    (hstack : stack.length < 1000) :
    evalLoop rules (fuel + 1) ⟨vch :: stack, [], [], n, pc, code⟩ =
      evalLoop rules fuel ⟨rules.crypto.hash .hash160 vch :: stack, [], [], n + 1, rest, code⟩ := by
  refine evalLoop_ok h (by decide) (by decide) rfl hn rfl ?_ (by rw [List.length_cons]; omega)
  have hsize : decide ((vch :: stack).length < 1) = false :=
    decide_eq_false (by rw [List.length_cons]; omega)
  simp only [evalOp, hsize, failIf_false, stacktop_one, popstack_cons, bind, Except.bind]
  rfl

theorem evalOp_equal {vch1 vch2 : Valtype} {fVerify : Bool} :
    evalOp rules true ⟨vch2 :: vch1 :: stack, [], [], n, rest, code⟩ (.equal fVerify) =
      pushAnswer ⟨vch2 :: vch1 :: stack, [], [], n, rest, code⟩ stack (vch1 = vch2) fVerify := by
  have hsize : decide ((vch2 :: vch1 :: stack).length < 2) = false :=
    decide_eq_false (by rw [List.length_cons, List.length_cons]; omega)
  simp only [evalOp, hsize, failIf_false, stacktop_one, stacktop_two, popstack_cons, bind, Except.bind]

theorem evalLoop_equalVerify {vch1 vch2 : Valtype} (h : getOp2 pc = ⟨true, OP_EQUALVERIFY, [], rest⟩)
    (hn : n < 201) (hstack : stack.length ≤ 1000) :
    evalLoop rules (fuel + 1) ⟨vch2 :: vch1 :: stack, [], [], n, pc, code⟩ =
      if vch1 = vch2 then evalLoop rules fuel ⟨stack, [], [], n + 1, rest, code⟩ else .error .fail := by
  by_cases heq : vch1 = vch2
  · rw [if_pos heq]
    refine evalLoop_ok h (by decide) (by decide) rfl hn rfl ?_ hstack
    rw [evalOp_equal, decide_eq_true heq]
    rfl
  · rw [if_neg heq, evalLoop_op h (by decide) (by decide) rfl hn, evalOp_equal, decide_eq_false heq]
    rfl

theorem evalLoop_equal {vch1 vch2 : Valtype} (h : getOp2 pc = ⟨true, OP_EQUAL, [], rest⟩) (hn : n < 201)
    (hstack : stack.length < 1000) :
    evalLoop rules (fuel + 1) ⟨vch2 :: vch1 :: stack, [], [], n, pc, code⟩ =
      evalLoop rules fuel ⟨vchBool (vch1 = vch2) :: stack, [], [], n + 1, rest, code⟩ := by
  refine evalLoop_ok h (by decide) (by decide) rfl hn rfl ?_ (by rw [List.length_cons]; omega)
  rw [evalOp_equal]
  rfl

/-- `DUP HASH160 <hash> EQUALVERIFY CHECKSIG`. -/
theorem evalScript_pubkeyhash {keyID : Valtype} (hr : rules.Plain)
    (h : Reads script [(OP_DUP, []), (OP_HASH160, []), (op, keyID), (OP_EQUALVERIFY, []), (OP_CHECKSIG, [])])
    (hsize : keyID.length = 20) (hlen : script.length ≤ 10000) (hstack : stack.length < 900) :
    evalScript rules (vchPubKey :: vchSig :: stack) script =
      if rules.crypto.hash .hash160 vchPubKey = keyID then (do
        let f ← rules.checkSig vchSig vchPubKey (script.findAndDelete (pushVch vchSig))
        return vchBool f :: stack)
      else .error .fail := by
  obtain ⟨fuel, hfuel⟩ := h.exists_fuel
  obtain - | ⟨h1, h⟩ := h
  obtain - | ⟨h2, h⟩ := h
  obtain - | ⟨h3, h⟩ := h
  obtain - | ⟨h4, h⟩ := h
  obtain - | ⟨h5, h⟩ := h
  obtain - | - := h
  have hop : op ≤ OP_PUSHDATA4 := isPush_of_size (n := 19) h3 (by omega)
  have hlen2 : (vchPubKey :: vchSig :: stack).length < 902 := by
    rw [List.length_cons, List.length_cons]
    omega
  rw [evalScript_eq hlen, hfuel]
  rw [show fuel + [(OP_DUP, []), (OP_HASH160, []), (op, keyID), (OP_EQUALVERIFY, []), (OP_CHECKSIG, [])].length =
    fuel + 1 + 1 + 1 + 1 + 1 from rfl]
  rw [evalLoop_dup h1 (by omega) (by rw [List.length_cons]; omega), evalLoop_hash160 h2 (by omega) (by omega),
    evalLoop_push hr h3 hop (by omega), if_pos ⟨by omega, by rw [List.length_cons]; omega⟩,
    evalLoop_equalVerify h4 (by omega) (by omega)]
  split
  · exact evalLoop_checkSig h5 (by omega) (by omega)
  · rfl

/-- A pay-to-script-hash output only compares the hash of the last push. -/
theorem evalScript_scripthash {keyID : Valtype} (hr : rules.Plain)
    (h : Reads script [(OP_HASH160, []), (20, keyID), (OP_EQUAL, [])])
    (hsize : keyID.length = 20) (hlen : script.length ≤ 10000) (hstack : stack.length < 900) :
    evalScript rules (vch :: stack) script =
      .ok (vchBool (rules.crypto.hash .hash160 vch = keyID) :: stack) := by
  obtain ⟨fuel, hfuel⟩ := h.exists_fuel
  obtain - | ⟨h1, h⟩ := h
  obtain - | ⟨h2, h⟩ := h
  obtain - | ⟨h3, h⟩ := h
  obtain - | - := h
  rw [evalScript_eq hlen, hfuel]
  rw [show fuel + [(OP_HASH160, []), (20, keyID), (OP_EQUAL, [])].length = fuel + 1 + 1 + 1 from rfl]
  rw [evalLoop_hash160 h1 (by omega) (by omega), evalLoop_push hr h2 (by decide) (by omega),
    if_pos ⟨by omega, by rw [List.length_cons]; omega⟩, evalLoop_equal h3 (by omega) (by omega)]
  simp only [evalLoop_nil, bind, Except.bind, List.isEmpty_nil, Bool.not_true, failIf_false]
  rfl

/-! ### Scripts of pushes -/

theorem toNat_ofNat_lt {k : Nat} (hk : k < 256) : (UInt8.ofNat k).toNat = k :=
  UInt8.toNat_ofNat_of_lt (show k < 256 from hk)

theorem getPush_append (opcode : Nat) (vch : Valtype) (rest : CScript) :
    getPush opcode vch.length (vch ++ rest) = ⟨true, opcode, vch, rest⟩ := by
  rw [getPush, if_neg (by rw [List.length_append]; omega), List.take_left, List.drop_left]

theorem getPushData_append {opcode nBytes : Nat} {size : List UInt8} (vch : Valtype) (rest : CScript)
    (hsize : size.length = nBytes) (hvalue : fromLE size = vch.length) :
    getPushData opcode nBytes (size ++ vch ++ rest) = ⟨true, opcode, vch, rest⟩ := by
  subst hsize
  rw [getPushData, if_neg (by rw [List.length_append, List.length_append]; omega), List.append_assoc,
    List.take_left, List.drop_left, hvalue]
  exact getPush_append opcode vch rest

theorem getOp2_pushdata1 (pc : CScript) :
    getOp2 (UInt8.ofNat OP_PUSHDATA1 :: pc) = getPushData OP_PUSHDATA1 1 pc := rfl

theorem getOp2_pushdata2 (pc : CScript) :
    getOp2 (UInt8.ofNat OP_PUSHDATA2 :: pc) = getPushData OP_PUSHDATA2 2 pc := rfl

theorem getOp2_pushdata4 (pc : CScript) :
    getOp2 (UInt8.ofNat OP_PUSHDATA4 :: pc) = getPushData OP_PUSHDATA4 4 pc := rfl

theorem getOp2_pushVch (vch : Valtype) (rest : CScript) (hlen : vch.length < 2 ^ 32) :
    ∃ op, op ≤ OP_PUSHDATA4 ∧ getOp2 (pushVch vch ++ rest) = ⟨true, op, vch, rest⟩ := by
  unfold pushVch
  dsimp only
  split_ifs with h1 h2 h3
  · refine ⟨vch.length, h1.le.trans (by decide), ?_⟩
    rw [OP_PUSHDATA1] at h1
    rw [List.singleton_append, List.cons_append, getOp2, toNat_ofNat_lt (by omega)]
    rw [if_pos (by rw [OP_PUSHDATA1]; omega)]
    exact getPush_append _ vch rest
  · refine ⟨OP_PUSHDATA1, by decide, ?_⟩
    rw [List.cons_append, List.cons_append, getOp2_pushdata1]
    have hvalue : fromLE [UInt8.ofNat vch.length] = vch.length := by
      simp only [fromLE, List.map_cons, List.map_nil, Nat.ofDigits_cons, Nat.ofDigits_nil,
        toNat_ofNat_lt (show vch.length < 256 by omega)]
      omega
    exact getPushData_append vch rest rfl hvalue
  · refine ⟨OP_PUSHDATA2, by decide, ?_⟩
    rw [List.cons_append, List.cons_append, getOp2_pushdata2]
    have hvalue : fromLE [UInt8.ofNat vch.length, UInt8.ofNat (vch.length / 2 ^ 8)] = vch.length := by
      simp only [fromLE, List.map_cons, List.map_nil, Nat.ofDigits_cons, Nat.ofDigits_nil, UInt8.toNat_ofNat']
      omega
    exact getPushData_append vch rest rfl hvalue
  · refine ⟨OP_PUSHDATA4, by decide, ?_⟩
    rw [List.cons_append, List.cons_append, getOp2_pushdata4]
    have hvalue : fromLE [UInt8.ofNat vch.length, UInt8.ofNat (vch.length / 2 ^ 8),
        UInt8.ofNat (vch.length / 2 ^ 16), UInt8.ofNat (vch.length / 2 ^ 24)] = vch.length := by
      simp only [fromLE, List.map_cons, List.map_nil, Nat.ofDigits_cons, Nat.ofDigits_nil, UInt8.toNat_ofNat']
      omega
    exact getPushData_append vch rest rfl hvalue

theorem length_pushVch (vch : Valtype) : vch.length < (pushVch vch).length := by
  unfold pushVch
  dsimp only
  split_ifs <;> simp only [List.length_append, List.length_cons, List.length_nil] <;> omega

theorem length_le_pushAll : ∀ values : List Valtype,
    values.length ≤ (pushAll values).length ∧ ∀ vch ∈ values, vch.length ≤ (pushAll values).length := by
  intro values
  induction values with
  | nil => exact ⟨le_rfl, fun _ h => (nomatch h)⟩
  | cons vch values ih =>
    have hpush := length_pushVch vch
    have hall : (pushAll (vch :: values)).length = (pushVch vch).length + (pushAll values).length := by
      rw [pushAll, List.flatMap_cons, List.length_append]
      rfl
    rw [hall, List.length_cons]
    refine ⟨by omega, List.forall_mem_cons.mpr ⟨by omega, fun v hv => ?_⟩⟩
    exact (ih.2 v hv).trans (by omega)

theorem evalLoop_pushAll (hr : rules.Plain) : ∀ (values stack : List Valtype), stack.length ≤ 1000 →
    (∀ vch ∈ values, vch.length < 2 ^ 32) → evalLoop rules (fuel + values.length)
        ⟨stack, [], [], 0, pushAll values, code⟩ =
      if (∀ vch ∈ values, vch.length ≤ 520) ∧ stack.length + values.length ≤ 1000 then
        .ok ⟨values.reverse ++ stack, [], [], 0, [], code⟩
      else .error .fail := by
  intro values
  induction values with
  | nil =>
    intro stack hstack _
    rw [if_pos ⟨fun _ h => (nomatch h), hstack⟩]
    exact evalLoop_nil _ _ rfl
  | cons vch values ih =>
    intro stack _ hvalues
    obtain ⟨hvch, hvalues⟩ := List.forall_mem_cons.mp hvalues
    obtain ⟨op, hop, hread⟩ := getOp2_pushVch vch (pushAll values) hvch
    have hcons : pushAll (vch :: values) = pushVch vch ++ pushAll values := rfl
    have hlength : (vch :: stack).length = stack.length + 1 := rfl
    rw [hcons, List.length_cons, ← Nat.add_assoc, evalLoop_push hr hread hop (by omega)]
    by_cases hfits : vch.length ≤ 520 ∧ stack.length < 1000
    · rw [if_pos hfits, ih _ (by omega) hvalues, hlength]
      by_cases hrest : (∀ vch ∈ values, vch.length ≤ 520) ∧ stack.length + 1 + values.length ≤ 1000
      · rw [if_pos hrest, if_pos ⟨List.forall_mem_cons.mpr ⟨hfits.1, hrest.1⟩, by omega⟩, List.reverse_cons,
          List.append_assoc, List.singleton_append]
      · rw [if_neg hrest, if_neg]
        exact fun h => hrest ⟨(List.forall_mem_cons.mp h.1).2, by omega⟩
    · rw [if_neg hfits, if_neg]
      exact fun h => hfits ⟨(List.forall_mem_cons.mp h.1).1, by omega⟩

/-- A script that only pushes. -/
theorem evalScript_pushAll (hr : rules.Plain) {values : List Valtype} (hlen : (pushAll values).length ≤ 10000) :
    evalScript rules [] (pushAll values) =
      if (∀ vch ∈ values, vch.length ≤ 520) ∧ values.length ≤ 1000 then .ok values.reverse
      else .error .fail := by
  have hle := length_le_pushAll values
  have hvalues : ∀ vch ∈ values, vch.length < 2 ^ 32 := fun vch h => by have := hle.2 vch h; omega
  have hfuel : (pushAll values).length = ((pushAll values).length - values.length) + values.length := by omega
  rw [evalScript_eq hlen, hfuel, evalLoop_pushAll hr values [] (Nat.zero_le _) hvalues, List.length_nil,
    Nat.zero_add, List.append_nil]
  split <;> rfl

theorem pushOnlyLoop_pushAll : ∀ (values : List Valtype) (fuel : Nat), values.length ≤ fuel →
    (∀ vch ∈ values, vch.length < 2 ^ 32) → pushOnlyLoop fuel (pushAll values) = true := by
  intro values
  induction values with
  | nil =>
    intro fuel _ _
    cases fuel <;> rfl
  | cons vch values ih =>
    intro fuel hfuel hvalues
    obtain ⟨hvch, hvalues⟩ := List.forall_mem_cons.mp hvalues
    cases fuel with
    | zero => cases hfuel
    | succ fuel =>
      obtain ⟨op, hop, hread⟩ := getOp2_pushVch vch (pushAll values) hvch
      have hcons : pushAll (vch :: values) = pushVch vch ++ pushAll values := rfl
      rw [OP_PUSHDATA4] at hop
      rw [pushOnlyLoop, hcons]
      have h16 : ¬ OP_16 < op := by
        rw [OP_16]
        omega
      simp only [hread, h16, ih fuel (Nat.le_of_succ_le_succ hfuel) hvalues]
      simp

theorem isPushOnly_pushAll {values : List Valtype} (hlen : (pushAll values).length ≤ 10000) :
    (pushAll values).isPushOnly = true :=
  pushOnlyLoop_pushAll values _ (length_le_pushAll values).1 fun vch h => by
    have := (length_le_pushAll values).2 vch h
    omega

theorem reads_scripthash (h : script.isPayToScriptHash = true) :
    Reads script [(OP_HASH160, []), (20, (script.drop 2).take 20), (OP_EQUAL, [])] := by
  simp only [isPayToScriptHash, Bool.and_eq_true, decide_eq_true_eq] at h
  obtain ⟨⟨⟨hlen, h0⟩, h1⟩, h22⟩ := h
  rcases script with _ | ⟨b0, _ | ⟨b1, pc⟩⟩
  · cases hlen
  · cases hlen
  rw [List.length_cons, List.length_cons] at hlen
  rw [List.getD_cons_zero] at h0
  rw [List.getD_cons_succ, List.getD_cons_zero] at h1
  rw [List.getD_cons_succ, List.getD_cons_succ] at h22
  have hlast : pc.drop 20 = [pc.getD 20 0] := by
    rw [List.drop_eq_getElem_cons (by omega), List.getD_eq_getElem?_getD, List.getElem?_eq_getElem (by omega),
      List.drop_eq_nil_of_le (by omega)]
    rfl
  refine @Reads.cons _ (b1 :: pc) _ _ _ ?_ (@Reads.cons _ (pc.drop 20) _ _ _ ?_ (@Reads.cons _ [] _ _ _ ?_ .nil))
  · simp only [getOp2, h0]
    rfl
  · simp only [getOp2, h1]
    rw [if_pos (by decide), getPush, if_neg (by omega)]
    rfl
  · rw [hlast]
    simp only [getOp2, h22]
    rfl

/-! ### Multisig scripts -/

theorem serialize_small {k : Nat} (hk : k ≤ 16) :
    CScriptNum.ofVch (CScriptNum.serialize k) false = .ok (k : Int) ∧ (CScriptNum.serialize k).length ≤ 520 := by
  have hall : ∀ k : Fin 17, CScriptNum.ofVch (CScriptNum.serialize (k.val : Int)) false = .ok (k.val : Int) ∧
      (CScriptNum.serialize (k.val : Int)).length ≤ 520 := by decide
  exact hall ⟨k, by omega⟩

theorem evalCheckMultiSig_plain (hr : rules.Plain) {keys sigs : List Valtype} {count : Nat}
    (hkeys : keys.length ≤ 16) (hsigs : sigs.length ≤ keys.length) (hcount : count + keys.length ≤ 201) :
    evalCheckMultiSig rules false ⟨CScriptNum.serialize keys.length :: (keys ++
        CScriptNum.serialize sigs.length :: (sigs ++ [] :: stack)), [], [], count, pc, code⟩ = (do
      let f ← matchSigs rules (withoutSigs sigs code) keys sigs
      return ⟨vchBool f :: stack, [], [], count + keys.length, pc, code⟩) := by
  have hnum := (serialize_small hkeys).1
  have hnum' := (serialize_small (hsigs.trans hkeys)).1
  rw [← hr.minimal] at hnum hnum'
  rw [evalCheckMultiSig_eq rfl hnum hnum' (by omega) hsigs]
  dsimp only
  rw [decide_eq_false (show ¬ 201 < count + keys.length by omega), failIf_false]
  cases matchSigs rules (withoutSigs sigs code) keys sigs with
  | error e => rfl
  | ok f =>
    simp only [bind, Except.bind, List.isEmpty_nil, Bool.not_true, Bool.and_false, failIf_false]
    rfl

theorem evalLoop_num {k : Nat} (h : getOp2 pc = ⟨true, OP_1 - 1 + k, [], rest⟩) (hk : 1 ≤ k) (hk' : k ≤ 16)
    (hn : n < 201) (hstack : stack.length < 1000) :
    evalLoop rules (fuel + 1) ⟨stack, [], [], n, pc, code⟩ =
      evalLoop rules fuel ⟨CScriptNum.serialize k :: stack, [], [], n, rest, code⟩ := by
  have hsop : scriptOp (OP_1 - 1 + k) = some (.pushNum k) := by
    unfold scriptOp
    rw [if_pos (.inr ⟨by rw [OP_1]; omega, by rw [OP_1, OP_16]; omega⟩)]
    congr 2
    push_cast
    omega
  have hop : disabledOpcodes.contains (OP_1 - 1 + k) = false := by
    rw [List.contains_eq_mem, decide_eq_false_iff_not, disabledOpcodes, OP_1]
    intro hmem
    simp only [List.mem_cons, List.not_mem_nil, or_false] at hmem
    omega
  refine evalLoop_ok h (by rw [OP_PUSHDATA4, OP_1]; omega) hop hsop hn (if_neg (by rw [OP_16, OP_1]; omega)) rfl ?_
  rw [List.length_cons]
  omega

theorem evalLoop_keys (hr : rules.Plain) {instrs : List (Nat × Valtype)} (hn : n < 201) :
    ∀ (keys : List (Nat × Valtype)) {pc : CScript} (stack : List Valtype), Reads pc (keys ++ instrs) →
      (∀ key ∈ keys, isPubKeySize key.2 = true) → stack.length + keys.length ≤ 1000 →
      ∃ rest, Reads rest instrs ∧ evalLoop rules (fuel + keys.length) ⟨stack, [], [], n, pc, code⟩ =
        evalLoop rules fuel ⟨(keys.map Prod.snd).reverse ++ stack, [], [], n, rest, code⟩ := by
  intro keys
  induction keys with
  | nil => exact fun stack h _ _ => ⟨_, h, rfl⟩
  | cons key keys ih =>
    intro pc stack h hkeys hlen
    obtain ⟨op, vch⟩ := key
    obtain ⟨hkey, hkeys'⟩ := List.forall_mem_cons.mp hkeys
    rw [List.length_cons] at hlen
    rw [isPubKeySize, Bool.and_eq_true, decide_eq_true_eq, decide_eq_true_eq] at hkey
    dsimp only at hkey
    rw [List.cons_append] at h
    obtain - | ⟨h1, h⟩ := h
    obtain ⟨rest, hrest, hloop⟩ := ih (vch :: stack) h hkeys' (by rw [List.length_cons]; omega)
    refine ⟨rest, hrest, ?_⟩
    rw [List.length_cons, ← Nat.add_assoc, evalLoop_push hr h1 (isPush_of_size (n := 0) h1 (by omega)) hn,
      if_pos ⟨by omega, by omega⟩, hloop, List.map_cons, List.reverse_cons, List.append_assoc,
      List.singleton_append]

/-- `m <pubkeys> n CHECKMULTISIG`. -/
theorem evalScript_multisig {keys : List (Nat × Valtype)} {sigs : List Valtype} (hr : rules.Plain)
    (h : Reads script ((OP_1 - 1 + sigs.length, []) ::
      (keys ++ [(OP_1 - 1 + keys.length, []), (OP_CHECKMULTISIG, [])])))
    (hkeys : ∀ key ∈ keys, isPubKeySize key.2 = true) (hpos : 1 ≤ sigs.length) (hle : sigs.length ≤ keys.length)
    (hle' : keys.length ≤ 16) (hlen : script.length ≤ 10000) (hstack : stack.length < 900) :
    evalScript rules (sigs ++ [] :: stack) script = (do
      let f ← matchSigs rules (withoutSigs sigs script) (keys.map Prod.snd).reverse sigs
      return vchBool f :: stack) := by
  obtain ⟨fuel, hfuel⟩ := h.exists_fuel
  obtain - | ⟨h1, h⟩ := h
  have hlength : (sigs ++ [] :: stack).length = sigs.length + 1 + stack.length := by
    rw [List.length_append, List.length_cons]
    omega
  have hcount : (keys.map Prod.snd).reverse.length = keys.length := by
    rw [List.length_reverse, List.length_map]
  obtain ⟨rest, hrest, hloop⟩ := @evalLoop_keys rules script 0 (fuel + 1 + 1) hr _ (by omega) keys _
    (CScriptNum.serialize sigs.length :: (sigs ++ [] :: stack)) h hkeys (by rw [List.length_cons]; omega)
  obtain - | ⟨h2, h⟩ := hrest
  obtain - | ⟨h3, h⟩ := h
  obtain - | - := h
  rw [evalScript_eq hlen, hfuel]
  rw [show fuel + ((OP_1 - 1 + sigs.length, ([] : Valtype)) ::
      (keys ++ [(OP_1 - 1 + keys.length, []), (OP_CHECKMULTISIG, [])])).length =
    fuel + 1 + 1 + keys.length + 1 by simp only [List.length_cons, List.length_append, List.length_nil]; omega]
  rw [evalLoop_num h1 hpos (hle.trans hle') (by omega) (by omega), hloop,
    evalLoop_num h2 (hpos.trans hle) hle' (by omega) (by simp only [List.length_cons, List.length_append]; omega),
    evalLoop_op h3 (by decide) (by decide) rfl (by omega)]
  rw [if_pos (by decide), evalOp, ← hcount, evalCheckMultiSig_plain hr (by omega) (by omega) (by omega)]
  cases matchSigs rules (withoutSigs sigs script) (keys.map Prod.snd).reverse sigs with
  | error e => rfl
  | ok f =>
    have hsize : decide (1000 < (vchBool f :: stack).length + ([] : List Valtype).length) = false :=
      decide_eq_false (by rw [List.length_cons, List.length_nil]; omega)
    simp only [bind, Except.bind, pure, Except.pure, hsize, failIf_false, evalLoop_nil, List.isEmpty_nil,
      Bool.not_true]

end Eval

end Sphinx
