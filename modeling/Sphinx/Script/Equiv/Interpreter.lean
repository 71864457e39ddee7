import Sphinx.Script.VerifyScript
import Sphinx.Script.Equiv.Script
import Sphinx.Util.Checked

/-!
# Script evaluation stays in bounds

The guards of each opcode are enough for its accesses to the stacks.

* `evalOp_safe`: one opcode, with one rule for each kind of access and one lemma for each longer opcode;
* `evalStep_safe`, `evalLoop_safe`: one round and the whole loop;
* `verifyScriptRun_safe`: `VerifyScript` takes the last element of a stack that is not empty;
* `evalScript_inBounds`: all of it for the interpreter of blocks.
-/

namespace Sphinx

open Checked

/-- An access outside of a stack, or more rounds than the script has bytes. -/
def EvalStop.IsFault (e : EvalStop) : Prop := e = .outOfRange ∨ e = .outOfFuel

def SmallStack (stack : List Valtype) : Prop := ∀ vch ∈ stack, vch.length ≤ 520

namespace SmallStack

variable {stack : List Valtype} {vch : Valtype}

theorem cons (hvch : vch.length ≤ 520) (h : SmallStack stack) : SmallStack (vch :: stack) :=
  List.forall_mem_cons.mpr ⟨hvch, h⟩

theorem tail (h : SmallStack stack) : SmallStack stack.tail := fun v hv => h v (List.mem_of_mem_tail hv)

theorem take (h : SmallStack stack) (n : Nat) : SmallStack (stack.take n) :=
  fun v hv => h v (List.mem_of_mem_take hv)

theorem drop (h : SmallStack stack) (n : Nat) : SmallStack (stack.drop n) :=
  fun v hv => h v (List.mem_of_mem_drop hv)

theorem append {stack' : List Valtype} (h : SmallStack stack) (h' : SmallStack stack') :
    SmallStack (stack ++ stack') := by
  intro v hv
  rcases List.mem_append.mp hv with hv | hv
  · exact h v hv
  · exact h' v hv

theorem set (h : SmallStack stack) (i : Nat) (hvch : vch.length ≤ 520) : SmallStack (stack.set i vch) := by
  intro v hv
  rcases List.mem_or_eq_of_mem_set hv with hv | rfl
  · exact h v hv
  · exact hvch

end SmallStack

/-! ### The sizes of numbers -/

theorem CScript.fromLE_lt (vch : Valtype) : CScript.fromLE vch < 256 ^ vch.length := by
  have hlt := Nat.ofDigits_lt_base_pow_length (b := 256) (l := vch.map UInt8.toNat) (by norm_num) fun d hd => by
    obtain ⟨byte, -, rfl⟩ := List.mem_map.mp hd
    exact byte.toNat_lt
  rwa [List.length_map] at hlt

theorem natAbs_setVch_le (vch : Valtype) : (CScript.setVch vch).natAbs < 256 ^ vch.length := by
  have hlt := CScript.fromLE_lt vch
  unfold CScript.setVch
  split
  · exact Nat.pow_pos (by norm_num)
  · dsimp only
    split <;> omega

theorem length_serialize_le {value : Int} (h : value.natAbs < 256 ^ 8) :
    (CScriptNum.serialize value).length ≤ 9 := by
  have hlen : (Nat.digits 256 value.natAbs).length ≤ 8 :=
    (Nat.digits_length_le_iff (by norm_num) _).mpr h
  unfold CScriptNum.serialize
  dsimp only
  split
  · exact Nat.zero_le _
  · split_ifs <;>
      simp only [List.length_append, List.length_dropLast, List.length_map, List.length_singleton] <;> omega

theorem length_serialize_small {value : Int} (h : value.natAbs < 256 ^ 8) :
    (CScriptNum.serialize value).length ≤ 520 :=
  (length_serialize_le h).trans (by norm_num)

theorem natAbs_unary_le (op : UnaryOp) (bn : Int) : (op.eval bn).natAbs ≤ bn.natAbs + 1 := by
  cases op <;> simp only [UnaryOp.eval] <;> (try split_ifs) <;> omega

theorem natAbs_binary_le (op : BinaryOp) (bn1 bn2 : Int) :
    (op.eval bn1 bn2).natAbs ≤ bn1.natAbs + bn2.natAbs + 1 := by
  cases op <;> simp only [BinaryOp.eval] <;> (try split_ifs) <;> omega

/-! ### Rules for the accesses -/

section Rules

variable {β : Type} {post : β → Prop} {stack : List Valtype} {f : Valtype → Except EvalStop β}
  {g : List Valtype → Except EvalStop β}

theorem safe_failIf {c : Bool} {f : Unit → Except EvalStop β}
    (hf : c = false → Safe EvalStop.IsFault post (f ())) :
    Safe EvalStop.IsFault post (failIf c >>= f) := by
  cases c with
  | false => exact hf rfl
  | true => exact fun h => by rcases h with h | h <;> cases h

theorem safe_stacktop {i : Nat} (hs : SmallStack stack) (hi : 1 ≤ i) (hle : i ≤ stack.length)
    (hf : ∀ vch : Valtype, vch.length ≤ 520 → Safe EvalStop.IsFault post (f vch)) :
    Safe EvalStop.IsFault post (stacktop stack i >>= f) := by
  unfold stacktop
  rw [if_pos ⟨hi, hle⟩]
  apply hf
  have hlt : i - 1 < stack.length := by omega
  rw [List.getD_eq_getElem?_getD, List.getElem?_eq_getElem hlt, Option.getD_some]
  exact hs _ (List.getElem_mem _)

theorem safe_popstack (hs : SmallStack stack) (hle : 1 ≤ stack.length)
    (hg : ∀ stack', SmallStack stack' → stack'.length + 1 = stack.length →
        Safe EvalStop.IsFault post (g stack')) :
    Safe EvalStop.IsFault post (popstack stack >>= g) := by
  unfold popstack
  have hne : stack.isEmpty = false := by
    cases stack with
    | nil => cases hle
    | cons _ _ => rfl
  rw [hne]
  refine hg _ hs.tail ?_
  rw [List.length_tail]
  omega

theorem safe_popstacks : ∀ (n : Nat) {stack : List Valtype}, SmallStack stack → n ≤ stack.length →
    (∀ stack', SmallStack stack' → stack'.length + n = stack.length → Safe EvalStop.IsFault post (g stack')) →
    Safe EvalStop.IsFault post (popstacks n stack >>= g) := by
  intro n
  induction n with
  | zero => exact fun hs _ hg => hg _ hs rfl
  | succ n ih =>
    intro stack hs hle hg
    rw [popstacks, bind_assoc]
    refine safe_popstack hs (by omega) fun stack1 hs1 hlen1 => ?_
    exact ih hs1 (by omega) fun stack' hs' hlen' => hg stack' hs' (by omega)

theorem safe_eraseRange {i j : Nat} (hs : SmallStack stack) (hji : j ≤ i) (hle : i ≤ stack.length)
    (hg : ∀ stack', SmallStack stack' → Safe EvalStop.IsFault post (g stack')) :
    Safe EvalStop.IsFault post (eraseRange stack i j >>= g) := by
  unfold eraseRange
  rw [if_pos ⟨hji, hle⟩]
  exact hg _ ((hs.take j).append (hs.drop i))

theorem safe_insertAt {i : Nat} {vch : Valtype} (hs : SmallStack stack) (hvch : vch.length ≤ 520)
    (hle : i ≤ stack.length) (hg : ∀ stack', SmallStack stack' → Safe EvalStop.IsFault post (g stack')) :
    Safe EvalStop.IsFault post (insertAt stack i vch >>= g) := by
  unfold insertAt
  rw [if_pos hle]
  exact hg _ ((hs.take i).append (.cons hvch (hs.drop i)))

theorem safe_swapTops {i j : Nat} (hs : SmallStack stack) (hi : 1 ≤ i) (hile : i ≤ stack.length) (hj : 1 ≤ j)
    (hjle : j ≤ stack.length)
    (hg : ∀ stack', SmallStack stack' → stack'.length = stack.length → Safe EvalStop.IsFault post (g stack')) :
    Safe EvalStop.IsFault post (swapTops stack i j >>= g) := by
  unfold swapTops
  rw [bind_assoc]
  refine safe_stacktop hs hi hile fun vch1 hvch1 => ?_
  rw [bind_assoc]
  refine safe_stacktop hs hj hjle fun vch2 hvch2 => ?_
  exact hg _ ((hs.set _ hvch2).set _ hvch1) (by rw [List.length_set, List.length_set])

theorem safe_ofVch {vch : Valtype} {fRequireMinimal : Bool} {f : Int → Except EvalStop β}
    (hf : ∀ bn : Int, bn.natAbs < 256 ^ 4 → Safe EvalStop.IsFault post (f bn)) :
    Safe EvalStop.IsFault post (CScriptNum.ofVch vch fRequireMinimal >>= f) := by
  unfold CScriptNum.ofVch
  split_ifs with hlong hminimal
  · exact fun h => by rcases h with h | h <;> cases h
  · exact fun h => by rcases h with h | h <;> cases h
  · refine hf _ ((natAbs_setVch_le vch).trans_le ?_)
    exact Nat.pow_le_pow_right (by norm_num) (not_lt.mp hlong)

/-- The guard of an opcode. -/
theorem safe_size {n k : Nat} {f : Unit → Except EvalStop β} (hf : k ≤ n → Safe EvalStop.IsFault post (f ())) :
    Safe EvalStop.IsFault post (failIf (decide (n < k)) >>= f) :=
  safe_failIf fun h => hf (not_lt.mp (of_decide_eq_false h))

end Rules

/-! ### Signature checks -/

/-- A signature check ends with an answer, or fails the script. -/
def EvalRules.Sound (rules : EvalRules) : Prop :=
  ∀ vchSig vchPubKey scriptCode,
    Safe EvalStop.IsFault (fun _ => True) (rules.checkSig vchSig vchPubKey scriptCode)

theorem evalRules_sound (crypto : ScriptCrypto) (txTo : CTransaction) (nIn flags : Nat) (nHashType : Int) :
    (evalRules crypto txTo nIn flags nHashType).Sound :=
  fun _ _ _ => safe_failIf fun _ => trivial

section MultiSig

variable {rules : EvalRules} {stack : List Valtype}

theorem dropSigs_safe (hs : SmallStack stack) : ∀ (n isig : Nat) (scriptCode : CScript), 1 ≤ isig →
    isig + n ≤ stack.length + 1 → Safe EvalStop.IsFault (fun _ => True) (dropSigs stack isig n scriptCode) := by
  intro n
  induction n with
  | zero => exact fun _ _ _ _ => trivial
  | succ n ih =>
    intro isig scriptCode hi hle
    rw [dropSigs]
    exact safe_stacktop hs hi (by omega) fun vch _ => ih _ _ (by omega) (by omega)

/-- `isig` and `ikey` do not leave the stack, since each round takes one of the keys left. -/
theorem multiSigLoop_safe (hr : rules.Sound) (hs : SmallStack stack) (scriptCode : CScript) :
    ∀ nKeysCount nSigsCount ikey isig : Nat, 1 ≤ ikey → 1 ≤ isig → ikey + nKeysCount ≤ stack.length + 1 →
      isig + nSigsCount ≤ stack.length + 1 →
      Safe EvalStop.IsFault (fun _ => True)
        (multiSigLoop rules stack scriptCode nKeysCount nSigsCount ikey isig) := by
  intro nKeysCount
  induction nKeysCount with
  | zero =>
    intro nSigsCount ikey isig _ _ _ _
    cases nSigsCount <;> exact trivial
  | succ nKeysCount ih =>
    intro nSigsCount ikey isig hkey hsig hkeys hsigs
    cases nSigsCount with
    | zero => exact trivial
    | succ nSigsCount =>
      rw [multiSigLoop]
      refine safe_stacktop hs hsig (by omega) fun vchSig _ => ?_
      refine safe_stacktop hs hkey (by omega) fun vchPubKey _ => ?_
      refine (hr vchSig vchPubKey scriptCode).bind fun fOk _ => ?_
      cases fOk with
      | false =>
        simp only [Bool.false_eq_true, if_false]
        split
        · exact trivial
        · exact ih _ _ _ (by omega) hsig (by omega) hsigs
      | true =>
        simp only [if_true]
        split
        · exact trivial
        · exact ih _ _ _ (by omega) (by omega) (by omega) (by omega)

end MultiSig

/-! ### The opcodes -/

/-- What an opcode leaves.  `OP_DEPTH` pushes the size of the stack, which is small if the loop goes on. -/
structure EvalState.Leaves (st st' : EvalState) : Prop where
  pc : st'.pc = st.pc
  count : st'.nOpCount ≤ 201
  small : st'.stack.length + st'.altstack.length ≤ 1000 → SmallStack st'.stack ∧ SmallStack st'.altstack

section Ops

variable {rules : EvalRules} {st : EvalState}

theorem length_vchBool (f : Bool) : (vchBool f).length ≤ 520 := by cases f <;> decide

theorem pushAnswer_safe {st' : EvalState} {stack : List Valtype} (hpc : st'.pc = st.pc)
    (hcount : st'.nOpCount ≤ 201) (halt : SmallStack st'.altstack) (hs : SmallStack stack)
    (fSuccess fVerify : Bool) :
    Safe EvalStop.IsFault st.Leaves (pushAnswer st' stack fSuccess fVerify) := by
  have hpush := hs.cons (length_vchBool fSuccess)
  unfold pushAnswer
  split_ifs
  · refine safe_popstack hpush (by rw [List.length_cons]; omega) fun stack1 hs1 _ => ?_
    exact ⟨hpc, hcount, fun _ => ⟨hs1, halt⟩⟩
  · exact fun h => by rcases h with h | h <;> cases h
  · exact ⟨hpc, hcount, fun _ => ⟨hpush, halt⟩⟩

section

variable (hr : rules.Sound) (hs : SmallStack st.stack) (halt : SmallStack st.altstack)

include hr hs halt

theorem evalCheckSig_safe
    (hcount : st.nOpCount ≤ 201) (fVerify : Bool) :
    Safe EvalStop.IsFault st.Leaves (evalCheckSig rules fVerify st) := by
  unfold evalCheckSig
  refine safe_size fun hsize => ?_
  refine safe_stacktop hs (by omega) hsize fun vchSig _ => ?_
  refine safe_stacktop hs le_rfl (by omega) fun vchPubKey _ => ?_
  refine (hr _ _ _).bind fun fSuccess _ => ?_
  refine safe_popstack hs (by omega) fun stack1 hs1 hlen1 => ?_
  refine safe_popstack hs1 (by omega) fun stack2 hs2 _ => ?_
  exact pushAnswer_safe rfl hcount halt hs2 _ _

/-- The elements of `OP_CHECKMULTISIG` are counted before they are read: the keys, the signatures and the
one that is not used. -/
theorem evalCheckMultiSig_safe
    (fVerify : Bool) : Safe EvalStop.IsFault st.Leaves (evalCheckMultiSig rules fVerify st) := by
  unfold evalCheckMultiSig
  refine safe_size fun hsize => ?_
  refine safe_stacktop hs le_rfl hsize fun vch _ => ?_
  refine safe_ofVch fun bnKeys _ => ?_
  refine safe_failIf fun hkeys => ?_
  dsimp only
  refine safe_failIf fun hops => ?_
  refine safe_size fun hsizeKeys => ?_
  refine safe_stacktop hs (by omega) hsizeKeys fun vch _ => ?_
  refine safe_ofVch fun bnSigs _ => ?_
  refine safe_failIf fun hsigs => ?_
  refine safe_size fun hsizeSigs => ?_
  refine (dropSigs_safe hs _ _ _ (by omega) (by omega)).bind fun scriptCode _ => ?_
  refine (multiSigLoop_safe hr hs scriptCode _ _ _ _ (by omega) (by omega) (by omega) (by omega)).bind
    fun fSuccess _ => ?_
  refine safe_popstacks _ hs (by omega) fun stack1 hs1 _ => ?_
  refine safe_size fun hdummy => ?_
  refine safe_stacktop hs1 le_rfl hdummy fun vch _ => ?_
  refine safe_failIf fun _ => ?_
  refine safe_popstack hs1 hdummy fun stack2 hs2 _ => ?_
  have hcount : st.nOpCount + (CScript.getint bnKeys).toNat ≤ 201 := not_lt.mp (of_decide_eq_false hops)
  refine pushAnswer_safe ?_ ?_ ?_ hs2 _ _
  · rfl
  · exact hcount
  · exact halt

end

section

variable {fExec : Bool} (hs : SmallStack st.stack) (halt : SmallStack st.altstack) (hcount : st.nOpCount ≤ 201)

include halt hcount

theorem safe_stack {stack : List Valtype} (hs : SmallStack stack) :
    Safe EvalStop.IsFault st.Leaves (pure { st with stack := stack }) :=
  ⟨rfl, hcount, fun _ => ⟨hs, halt⟩⟩

include hs

theorem safe_opIf (fNot : Bool) : Safe EvalStop.IsFault st.Leaves (evalOp rules fExec st (.opIf fNot)) := by
  simp only [evalOp]
  split
  · refine safe_size fun hsize => ?_
    refine safe_stacktop hs le_rfl hsize fun vch _ => ?_
    refine safe_popstack hs hsize fun stack1 hs1 _ => ?_
    exact ⟨rfl, hcount, fun _ => ⟨hs1, halt⟩⟩
  · exact ⟨rfl, hcount, fun _ => ⟨hs, halt⟩⟩

theorem safe_verify : Safe EvalStop.IsFault st.Leaves (evalOp rules fExec st .verify) := by
  refine safe_size fun hsize => ?_
  refine safe_stacktop hs le_rfl hsize fun vch _ => ?_
  refine safe_failIf fun _ => ?_
  exact safe_popstack hs hsize fun stack1 hs1 _ => safe_stack halt hcount hs1

theorem safe_toAltStack : Safe EvalStop.IsFault st.Leaves (evalOp rules fExec st .toAltStack) := by
  refine safe_size fun hsize => ?_
  refine safe_stacktop hs le_rfl hsize fun vch hvch => ?_
  refine safe_popstack hs hsize fun stack1 hs1 _ => ?_
  exact ⟨rfl, hcount, fun _ => ⟨hs1, halt.cons hvch⟩⟩

theorem safe_fromAltStack : Safe EvalStop.IsFault st.Leaves (evalOp rules fExec st .fromAltStack) := by
  refine safe_size fun hsize => ?_
  refine safe_stacktop halt le_rfl hsize fun vch hvch => ?_
  refine safe_popstack halt hsize fun stack1 hs1 _ => ?_
  exact ⟨rfl, hcount, fun _ => ⟨hs.cons hvch, hs1⟩⟩

theorem safe_dup2 : Safe EvalStop.IsFault st.Leaves (evalOp rules fExec st .dup2) := by
  refine safe_size fun hsize => ?_
  refine safe_stacktop hs (by omega) hsize fun vch1 hvch1 => ?_
  refine safe_stacktop hs le_rfl (by omega) fun vch2 hvch2 => ?_
  exact safe_stack halt hcount ((hs.cons hvch1).cons hvch2)

theorem safe_dup3 : Safe EvalStop.IsFault st.Leaves (evalOp rules fExec st .dup3) := by
  refine safe_size fun hsize => ?_
  refine safe_stacktop hs (by omega) hsize fun vch1 hvch1 => ?_
  refine safe_stacktop hs (by omega) (by omega) fun vch2 hvch2 => ?_
  refine safe_stacktop hs le_rfl (by omega) fun vch3 hvch3 => ?_
  exact safe_stack halt hcount (((hs.cons hvch1).cons hvch2).cons hvch3)

theorem safe_over2 : Safe EvalStop.IsFault st.Leaves (evalOp rules fExec st .over2) := by
  refine safe_size fun hsize => ?_
  refine safe_stacktop hs (by omega) hsize fun vch1 hvch1 => ?_
  refine safe_stacktop hs (by omega) (by omega) fun vch2 hvch2 => ?_
  exact safe_stack halt hcount ((hs.cons hvch1).cons hvch2)

theorem safe_rot2 : Safe EvalStop.IsFault st.Leaves (evalOp rules fExec st .rot2) := by
  refine safe_size fun hsize => ?_
  refine safe_stacktop hs (by omega) hsize fun vch1 hvch1 => ?_
  refine safe_stacktop hs (by omega) (by omega) fun vch2 hvch2 => ?_
  refine safe_eraseRange hs (by omega) hsize fun stack1 hs1 => ?_
  exact safe_stack halt hcount ((hs1.cons hvch1).cons hvch2)

theorem safe_swap2 : Safe EvalStop.IsFault st.Leaves (evalOp rules fExec st .swap2) := by
  refine safe_size fun hsize => ?_
  refine safe_swapTops hs (by omega) hsize (by omega) (by omega) fun stack1 hs1 hlen1 => ?_
  refine safe_swapTops hs1 (by omega) (by omega) le_rfl (by omega) fun stack2 hs2 _ => ?_
  exact safe_stack halt hcount hs2

theorem safe_ifDup : Safe EvalStop.IsFault st.Leaves (evalOp rules fExec st .ifDup) := by
  refine safe_size fun hsize => ?_
  refine safe_stacktop hs le_rfl hsize fun vch hvch => ?_
  rw [safe_pure]
  split
  · exact safe_stack halt hcount (hs.cons hvch)
  · exact safe_stack halt hcount hs

theorem safe_pick (fRoll : Bool) : Safe EvalStop.IsFault st.Leaves (evalOp rules fExec st (.pick fRoll)) := by
  refine safe_size fun hsize => ?_
  refine safe_stacktop hs le_rfl (by omega) fun vch _ => ?_
  refine safe_ofVch fun bn _ => ?_
  refine safe_popstack hs (by omega) fun stack1 hs1 _ => ?_
  refine safe_failIf fun hrange => ?_
  rw [Bool.or_eq_false_iff, decide_eq_false_iff_not, decide_eq_false_iff_not] at hrange
  refine safe_stacktop hs1 (by omega) (by omega) fun vch hvch => ?_
  cases fRoll with
  | false => exact safe_stack halt hcount (hs1.cons hvch)
  | true => exact safe_eraseRange hs1 (by omega) (by omega) fun stack2 hs2 => safe_stack halt hcount (hs2.cons hvch)

theorem safe_rot : Safe EvalStop.IsFault st.Leaves (evalOp rules fExec st .rot) := by
  refine safe_size fun hsize => ?_
  refine safe_swapTops hs (by omega) hsize (by omega) (by omega) fun stack1 hs1 hlen1 => ?_
  refine safe_swapTops hs1 (by omega) (by omega) le_rfl (by omega) fun stack2 hs2 _ => ?_
  exact safe_stack halt hcount hs2

theorem safe_tuck : Safe EvalStop.IsFault st.Leaves (evalOp rules fExec st .tuck) := by
  refine safe_size fun hsize => ?_
  refine safe_stacktop hs le_rfl (by omega) fun vch hvch => ?_
  exact safe_insertAt hs hvch hsize fun stack1 hs1 => safe_stack halt hcount hs1

theorem safe_equal (fVerify : Bool) : Safe EvalStop.IsFault st.Leaves (evalOp rules fExec st (.equal fVerify)) := by
  refine safe_size fun hsize => ?_
  refine safe_stacktop hs (by omega) hsize fun vch1 _ => ?_
  refine safe_stacktop hs le_rfl (by omega) fun vch2 _ => ?_
  refine safe_popstack hs (by omega) fun stack1 hs1 hlen1 => ?_
  refine safe_popstack hs1 (by omega) fun stack2 hs2 _ => ?_
  exact pushAnswer_safe rfl hcount halt hs2 _ _

theorem safe_unary (op : UnaryOp) : Safe EvalStop.IsFault st.Leaves (evalOp rules fExec st (.unary op)) := by
  refine safe_size fun hsize => ?_
  refine safe_stacktop hs le_rfl hsize fun vch _ => ?_
  refine safe_ofVch fun bn hbn => ?_
  refine safe_popstack hs hsize fun stack1 hs1 _ => ?_
  have hle := natAbs_unary_le op bn
  exact safe_stack halt hcount (hs1.cons (length_serialize_small (by omega)))

theorem safe_binary (op : BinaryOp) : Safe EvalStop.IsFault st.Leaves (evalOp rules fExec st (.binary op)) := by
  refine safe_size fun hsize => ?_
  refine safe_stacktop hs (by omega) hsize fun vch1 _ => ?_
  refine safe_ofVch fun bn1 hbn1 => ?_
  refine safe_stacktop hs le_rfl (by omega) fun vch2 _ => ?_
  refine safe_ofVch fun bn2 hbn2 => ?_
  refine safe_popstack hs (by omega) fun stack1 hs1 hlen1 => ?_
  refine safe_popstack hs1 (by omega) fun stack2 hs2 _ => ?_
  have hle := natAbs_binary_le op bn1 bn2
  have hpush := hs2.cons (length_serialize_small (by omega : (op.eval bn1 bn2).natAbs < 256 ^ 8))
  dsimp only
  split
  · refine safe_stacktop hpush le_rfl (by rw [List.length_cons]; omega) fun vch _ => ?_
    refine safe_failIf fun _ => ?_
    exact safe_popstack hpush (by rw [List.length_cons]; omega) fun stack3 hs3 _ => safe_stack halt hcount hs3
  · exact safe_stack halt hcount hpush

theorem safe_within : Safe EvalStop.IsFault st.Leaves (evalOp rules fExec st .within) := by
  refine safe_size fun hsize => ?_
  refine safe_stacktop hs (by omega) hsize fun vch1 _ => ?_
  refine safe_ofVch fun bn1 _ => ?_
  refine safe_stacktop hs (by omega) (by omega) fun vch2 _ => ?_
  refine safe_ofVch fun bn2 _ => ?_
  refine safe_stacktop hs le_rfl (by omega) fun vch3 _ => ?_
  refine safe_ofVch fun bn3 _ => ?_
  refine safe_popstacks 3 hs hsize fun stack1 hs1 _ => ?_
  exact safe_stack halt hcount (hs1.cons (length_vchBool _))

theorem safe_hash (op : HashOp) : Safe EvalStop.IsFault st.Leaves (evalOp rules fExec st (.hash op)) := by
  refine safe_size fun hsize => ?_
  refine safe_stacktop hs le_rfl hsize fun vch _ => ?_
  refine safe_popstack hs hsize fun stack1 hs1 _ => ?_
  refine safe_stack halt hcount (hs1.cons ?_)
  rw [rules.crypto.length_hash]
  cases op <;> decide

theorem evalOp_safe (hr : rules.Sound) {op : ScriptOp} (hnum : ∀ n, op = .pushNum n → n.natAbs < 256 ^ 8) :
    Safe EvalStop.IsFault st.Leaves (evalOp rules fExec st op) := by
  cases op with
  | pushNum n => exact safe_stack halt hcount (hs.cons (length_serialize_small (hnum n rfl)))
  | nop => exact safe_stack halt hcount hs
  | upgradableNop => exact safe_failIf fun _ => safe_stack halt hcount hs
  | opIf fNot => exact safe_opIf hs halt hcount fNot
  | opElse =>
    simp only [evalOp]
    split
    · exact fun h => by rcases h with h | h <;> cases h
    · exact ⟨rfl, hcount, fun _ => ⟨hs, halt⟩⟩
  | endIf =>
    simp only [evalOp]
    split
    · exact fun h => by rcases h with h | h <;> cases h
    · exact ⟨rfl, hcount, fun _ => ⟨hs, halt⟩⟩
  | verify => exact safe_verify hs halt hcount
  | opReturn => exact fun h => by rcases h with h | h <;> cases h
  | toAltStack => exact safe_toAltStack hs halt hcount
  | fromAltStack => exact safe_fromAltStack hs halt hcount
  | drop2 =>
    refine safe_size fun hsize => ?_
    refine safe_popstack hs (by omega) fun stack1 hs1 hlen1 => ?_
    exact safe_popstack hs1 (by omega) fun stack2 hs2 _ => safe_stack halt hcount hs2
  | dup2 => exact safe_dup2 hs halt hcount
  | dup3 => exact safe_dup3 hs halt hcount
  | over2 => exact safe_over2 hs halt hcount
  | rot2 => exact safe_rot2 hs halt hcount
  | swap2 => exact safe_swap2 hs halt hcount
  | ifDup => exact safe_ifDup hs halt hcount
  | depth =>
    refine ⟨rfl, hcount, fun hlen => ⟨hs.cons (length_serialize_small ?_), halt⟩⟩
    simp only [List.length_cons] at hlen
    omega
  | drop =>
    refine safe_size fun hsize => ?_
    exact safe_popstack hs hsize fun stack1 hs1 _ => safe_stack halt hcount hs1
  | dup =>
    refine safe_size fun hsize => ?_
    exact safe_stacktop hs le_rfl hsize fun vch hvch => safe_stack halt hcount (hs.cons hvch)
  | nip =>
    refine safe_size fun hsize => ?_
    exact safe_eraseRange hs (by omega) hsize fun stack1 hs1 => safe_stack halt hcount hs1
  | «over» =>
    refine safe_size fun hsize => ?_
    exact safe_stacktop hs (by omega) hsize fun vch hvch => safe_stack halt hcount (hs.cons hvch)
  | pick fRoll => exact safe_pick hs halt hcount fRoll
  | rot => exact safe_rot hs halt hcount
  | swap =>
    refine safe_size fun hsize => ?_
    exact safe_swapTops hs (by omega) hsize le_rfl (by omega) fun stack1 hs1 _ => safe_stack halt hcount hs1
  | tuck => exact safe_tuck hs halt hcount
  | size =>
    refine safe_size fun hsize => ?_
    refine safe_stacktop hs le_rfl hsize fun vch hvch => ?_
    exact safe_stack halt hcount (hs.cons (length_serialize_small (by omega)))
  | equal fVerify => exact safe_equal hs halt hcount fVerify
  | unary op => exact safe_unary hs halt hcount op
  | binary op => exact safe_binary hs halt hcount op
  | within => exact safe_within hs halt hcount
  | hash op => exact safe_hash hs halt hcount op
  | codeSeparator => exact ⟨rfl, hcount, fun _ => ⟨hs, halt⟩⟩
  | checkSig fVerify => exact evalCheckSig_safe hr hs halt hcount fVerify
  | checkMultiSig fVerify => exact evalCheckMultiSig_safe hr hs halt fVerify

end

end Ops

/-! ### The loop -/

/-- What holds after each round of the loop. -/
structure EvalState.Bounded (st : EvalState) : Prop where
  size : st.stack.length + st.altstack.length ≤ 1000
  stack : SmallStack st.stack
  altstack : SmallStack st.altstack
  count : st.nOpCount ≤ 201

/-- What holds before each round: there can be more elements at the beginning. -/
structure EvalState.Ready (st : EvalState) : Prop where
  stack : SmallStack st.stack
  altstack : SmallStack st.altstack
  count : st.nOpCount ≤ 201

theorem EvalState.Bounded.ready {st : EvalState} (h : st.Bounded) : st.Ready := ⟨h.stack, h.altstack, h.count⟩

/-- The state in which `EvalScript` begins. -/
def EvalState.start (stack : List Valtype) (script : CScript) : EvalState :=
  { stack := stack, pc := script, codehash := script }

theorem EvalState.start_ready {stack : List Valtype} (h : SmallStack stack) (script : CScript) :
    (EvalState.start stack script).Ready :=
  ⟨h, fun _ hv => absurd hv List.not_mem_nil, Nat.zero_le _⟩

section Loop

variable {rules : EvalRules} {st st' : EvalState}

theorem natAbs_of_scriptOp {opcode : Nat} {n : Int} (h : CScript.scriptOp opcode = some (.pushNum n)) :
    n.natAbs < 256 ^ 8 := by
  unfold CScript.scriptOp at h
  by_cases hop : opcode = CScript.OP_1NEGATE ∨ (CScript.OP_1 ≤ opcode ∧ opcode ≤ CScript.OP_16)
  · rw [if_pos hop] at h
    have hn := ScriptOp.pushNum.inj (Option.some.inj h)
    simp only [CScript.OP_1NEGATE, CScript.OP_1, CScript.OP_16] at hop hn
    omega
  · rw [if_neg hop] at h
    split at h
    all_goals first
      | cases h
      | (split at h <;> cases h)

theorem evalInstruction_safe (hr : rules.Sound) (h : st.Ready) (fExec : Bool) (opcode : Nat) {vch : Valtype}
    (hvch : vch.length ≤ 520) :
    Safe EvalStop.IsFault st.Leaves (evalInstruction rules fExec opcode vch st) := by
  unfold evalInstruction
  split_ifs
  · exact safe_failIf fun _ => safe_stack h.altstack h.count (h.stack.cons hvch)
  · split
    · exact fun h => by rcases h with h | h <;> cases h
    · next op hop =>
      exact evalOp_safe h.stack h.altstack h.count hr fun n heq => natAbs_of_scriptOp (hop.trans (heq ▸ rfl))
  · exact safe_stack h.altstack h.count h.stack

/-- **One round** leaves the stacks bounded and has read at least one byte. -/
theorem evalStep_safe (hr : rules.Sound) (h : st.Ready) (hpc : st.pc ≠ []) :
    Safe EvalStop.IsFault (fun st' => st'.Bounded ∧ st'.pc.length < st.pc.length) (evalStep rules st) := by
  unfold evalStep
  dsimp only
  refine safe_failIf fun _ => ?_
  refine safe_failIf fun hpush => ?_
  refine safe_failIf fun hops => ?_
  refine safe_failIf fun _ => ?_
  have hcount : (if CScript.OP_16 < (CScript.getOp2 st.pc).opcodeRet then st.nOpCount + 1 else st.nOpCount) ≤
      201 := by
    split
    · next hlt =>
      rw [if_pos hlt, decide_eq_true hlt, Bool.true_and] at hops
      exact not_lt.mp (of_decide_eq_false hops)
    · exact h.count
  have hvch := not_lt.mp (of_decide_eq_false hpush)
  set st0 : EvalState := { st with
    pc := (CScript.getOp2 st.pc).pc
    nOpCount := if CScript.OP_16 < (CScript.getOp2 st.pc).opcodeRet then st.nOpCount + 1 else st.nOpCount }
  have hready : st0.Ready := ⟨h.stack, h.altstack, hcount⟩
  refine (evalInstruction_safe hr hready _ _ hvch).bind fun st1 hst1 => ?_
  refine safe_failIf fun hsize => ?_
  have hsize := not_lt.mp (of_decide_eq_false hsize)
  refine ⟨⟨hsize, (hst1.small hsize).1, (hst1.small hsize).2, hst1.count⟩, ?_⟩
  have hread : st0.pc = (CScript.getOp2 st.pc).pc := rfl
  obtain ⟨op, pc, heq⟩ := List.exists_cons_of_ne_nil hpc
  rw [hst1.pc, hread, heq]
  exact CScript.getOp2_length_lt op pc

theorem evalLoop_safe (hr : rules.Sound) : ∀ (fuel : Nat) {st : EvalState}, st.Ready → st.pc.length ≤ fuel →
    Safe EvalStop.IsFault EvalState.Ready (evalLoop rules fuel st) := by
  intro fuel
  induction fuel with
  | zero =>
    intro st h hle
    rw [evalLoop, List.isEmpty_iff.mpr (List.eq_nil_of_length_eq_zero (Nat.le_zero.mp hle))]
    exact h
  | succ fuel ih =>
    intro st h hle
    rw [evalLoop]
    split
    · exact h
    · next hpc =>
      refine (evalStep_safe hr h fun heq => hpc (List.isEmpty_iff.mpr heq)).bind fun st1 hst1 => ?_
      exact ih hst1.1.ready (by omega)

theorem evalScript_safe (hr : rules.Sound) {stack : List Valtype} (h : SmallStack stack) (script : CScript) :
    Safe EvalStop.IsFault SmallStack (evalScript rules stack script) := by
  unfold evalScript
  refine safe_failIf fun _ => ?_
  refine (evalLoop_safe hr _ (EvalState.start_ready h script) le_rfl).bind fun st hst => ?_
  exact safe_failIf fun _ => hst.stack

end Loop

/-! ### The rounds of a run -/

/-- The state after `n` rounds. -/
inductive Rounds (rules : EvalRules) (st : EvalState) : Nat → EvalState → Prop
  | zero : Rounds rules st 0 st
  | succ {n : Nat} {st1 st2 : EvalState} : Rounds rules st n st1 → st1.pc ≠ [] → evalStep rules st1 = .ok st2 →
      Rounds rules st (n + 1) st2

section Rounds

variable {rules : EvalRules} {st st' : EvalState}

theorem Rounds.bounded (hr : rules.Sound) (hst : st.Ready) {n : Nat} (h : Rounds rules st n st') :
    n + st'.pc.length ≤ st.pc.length ∧ st'.Ready ∧ (0 < n → st'.Bounded) := by
  induction h with
  | zero => exact ⟨by omega, hst, fun hlt => absurd hlt (lt_irrefl 0)⟩
  | succ _ hpc hstep ih =>
    obtain ⟨hle, hready, -⟩ := ih
    obtain ⟨hbounded, hlt⟩ := (evalStep_safe hr hready hpc).of_ok hstep
    exact ⟨by omega, hbounded.ready, fun _ => hbounded⟩

end Rounds

/-! ### `VerifyScript` -/

section Verify

variable {rules : EvalRules}

theorem checkTop_safe {stack : List Valtype} (h : SmallStack stack) :
    Safe EvalStop.IsFault (fun _ => True) (checkTop stack) := by
  unfold checkTop
  refine safe_failIf fun hempty => ?_
  have hlen : 1 ≤ stack.length := by
    cases stack with
    | nil => cases hempty
    | cons _ _ => rw [List.length_cons]; omega
  refine safe_stacktop h le_rfl hlen fun vch _ => ?_
  cases castToBool vch
  · exact fun h => by rcases h with h | h <;> cases h
  · exact trivial

/-- `OP_HASH160` needs an element. -/
theorem evalScript_p2sh {scriptPubKey : CScript} (h : scriptPubKey.isPayToScriptHash = true)
    {stack stack' : List Valtype} (hok : evalScript rules stack scriptPubKey = .ok stack') :
    1 ≤ stack.length := by
  cases stack with
  | cons _ _ => rw [List.length_cons]; omega
  | nil =>
    obtain ⟨op, pc, rfl⟩ : ∃ op pc, scriptPubKey = op :: pc := by
      cases scriptPubKey with
      | nil => cases h
      | cons op pc => exact ⟨op, pc, rfl⟩
    have hop : op.toNat = 0xa9 := by
      simp only [CScript.isPayToScriptHash, Bool.and_eq_true, decide_eq_true_eq] at h
      exact h.1.1.2
    have hlen : pc.length = 22 := by
      simp only [CScript.isPayToScriptHash, Bool.and_eq_true, decide_eq_true_eq] at h
      have := h.1.1.1
      rw [List.length_cons] at this
      omega
    have hread : CScript.getOp2 (op :: pc) = ⟨true, 0xa9, [], pc⟩ := by
      simp only [CScript.getOp2, hop]
      rfl
    have hstep : evalStep rules (EvalState.start [] (op :: pc)) = .error .fail := by
      simp only [evalStep, EvalState.start, hread]
      rfl
    have hloop : evalLoop rules (op :: pc).length (EvalState.start [] (op :: pc)) = .error .fail := by
      rw [List.length_cons, evalLoop]
      simp only [hstep]
      rfl
    unfold evalScript at hok
    rw [show ({ stack := [], pc := op :: pc, codehash := op :: pc } : EvalState) = .start [] (op :: pc) from rfl,
      hloop, List.length_cons, hlen] at hok
    cases hok

theorem evalP2SH_safe (hr : rules.Sound) (scriptSig : CScript) {stackCopy : List Valtype}
    (h : SmallStack stackCopy) (hlen : 1 ≤ stackCopy.length) :
    Safe EvalStop.IsFault (fun _ => True) (evalP2SH rules scriptSig stackCopy) := by
  unfold evalP2SH
  refine safe_failIf fun _ => ?_
  refine safe_stacktop h le_rfl hlen fun pubKey2 _ => ?_
  refine safe_popstack h hlen fun stack1 hs1 _ => ?_
  exact (evalScript_safe hr hs1 pubKey2).bind fun stack2 hs2 => checkTop_safe hs2

/-- `stackCopy` has a last element, since the evaluation of `OP_HASH160` needed one. -/
theorem verifyScriptRun_safe (hr : rules.Sound) (scriptSig scriptPubKey : CScript) :
    Safe EvalStop.IsFault (fun _ => True) (verifyScriptRun rules scriptSig scriptPubKey) := by
  have hnil : SmallStack [] := fun _ hv => absurd hv List.not_mem_nil
  unfold verifyScriptRun
  refine (evalScript_safe hr hnil scriptSig).bind fun stackCopy hcopy => ?_
  refine (evalScript_safe hr hcopy scriptPubKey).bind_eq fun stack hok hs => ?_
  refine (checkTop_safe hs).bind fun _ _ => ?_
  split
  · next hp2sh => exact evalP2SH_safe hr scriptSig hcopy (evalScript_p2sh hp2sh hok)
  · exact trivial

end Verify

/-- **Evaluation stays in bounds**: no access outside of a stack, as many rounds as bytes at most, and after
each round that continues at most 1000 elements of at most 520 bytes and 201 counted operations. -/
theorem evalScript_inBounds (crypto : ScriptCrypto) (txTo : CTransaction) (nIn flags : Nat) (nHashType : Int)
    (script : CScript) (stack : List Valtype) (h : SmallStack stack) :
    (∀ e, evalScript (evalRules crypto txTo nIn flags nHashType) stack script = .error e → ¬ e.IsFault) ∧
    (∀ n st, Rounds (evalRules crypto txTo nIn flags nHashType) (.start stack script) n st →
      n ≤ script.length ∧ (0 < n → st.Bounded) ∧
      (st.pc ≠ [] → ∀ e, evalStep (evalRules crypto txTo nIn flags nHashType) st = .error e → ¬ e.IsFault)) ∧
    (∀ scriptSig scriptPubKey e,
      verifyScriptRun (evalRules crypto txTo nIn flags nHashType) scriptSig scriptPubKey = .error e →
        ¬ e.IsFault) := by
  have hr := evalRules_sound crypto txTo nIn flags nHashType
  refine ⟨fun e he => (evalScript_safe hr h script).of_error he, fun n st hst => ?_,
    fun scriptSig scriptPubKey e he => (verifyScriptRun_safe hr scriptSig scriptPubKey).of_error he⟩
  obtain ⟨hle, hready, hbounded⟩ := hst.bounded hr (EvalState.start_ready h script)
  exact ⟨(Nat.le_add_right _ _).trans hle, hbounded, fun hpc e he => (evalStep_safe hr hready hpc).of_error he⟩

def sampleCrypto : ScriptCrypto where
  hash op _ := List.replicate op.size 0
  length_hash _ _ := List.length_replicate
  checkLowS _ := true
  verify _ _ vchSig := !vchSig.isEmpty
  hashTx _ _ := 1

/-- `DUP IF DUP ELSE DROP ENDIF TOALTSTACK`. -/
theorem evalScript_inBounds_branches :
    (∀ e, evalScript (evalRules sampleCrypto { nTime := 0, vin := [], vout := [] } 0 0 0) [[1]]
      [0x76, 0x63, 0x76, 0x67, 0x75, 0x68, 0x6b] = .error e → ¬ e.IsFault) ∧
    (∀ n st, Rounds (evalRules sampleCrypto { nTime := 0, vin := [], vout := [] } 0 0 0)
      (.start [[1]] [0x76, 0x63, 0x76, 0x67, 0x75, 0x68, 0x6b]) n st → n ≤ 7 ∧ (0 < n → st.Bounded)) := by
  have h := evalScript_inBounds sampleCrypto { nTime := 0, vin := [], vout := [] } 0 0 0
    [0x76, 0x63, 0x76, 0x67, 0x75, 0x68, 0x6b] [[1]] (by unfold SmallStack; decide)
  exact ⟨h.1, fun n st hst => ⟨(h.2.1 n st hst).1, (h.2.1 n st hst).2.1⟩⟩

end Sphinx
