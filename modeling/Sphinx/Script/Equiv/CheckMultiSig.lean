import Sphinx.Script.Equiv.Interpreter
import Sphinx.Util.Matching

/-!
# `OP_CHECKMULTISIG`

The opcode checks its signatures against its keys in one pass from the last ones on.

* `evalCheckMultiSig_eq`: the opcode on a stack that holds its elements, with `matchSigs` for the loop;
* `multiSigChecks`: the same loop with the slots that each of its checks reads;
* `evalCheckMultiSig_ordered`: it pushes true exactly when all signatures can be matched with keys in order.
-/

namespace Sphinx

open CScript OrderMatch Checked

@[simp] theorem stacktop_one (vch : Valtype) (stack : List Valtype) :
    stacktop (vch :: stack) 1 = .ok vch := by
  rw [stacktop, if_pos ⟨le_rfl, by rw [List.length_cons]; omega⟩]
  rfl

@[simp] theorem stacktop_two (vch1 vch2 : Valtype) (stack : List Valtype) :
    stacktop (vch1 :: vch2 :: stack) 2 = .ok vch2 := by
  rw [stacktop, if_pos ⟨by omega, by rw [List.length_cons, List.length_cons]; omega⟩]
  rfl

@[simp] theorem popstack_cons (vch : Valtype) (stack : List Valtype) : popstack (vch :: stack) = .ok stack := rfl

@[simp] theorem failIf_false : failIf false = .ok () := rfl

@[simp] theorem failIf_true : failIf true = .error .fail := rfl

section Loop

variable {rules : EvalRules} {vch : Valtype}

theorem stacktop_drop {i : Nat} {s s' : List Valtype} (hi : 1 ≤ i) (h : s.drop (i - 1) = vch :: s') :
    stacktop s i = .ok vch := by
  have hlt : i - 1 < s.length := by
    by_contra hle
    rw [List.drop_eq_nil_of_le (by omega)] at h
    cases h
  rw [stacktop, if_pos ⟨hi, by omega⟩, List.getD_eq_getElem?_getD, List.getElem?_eq_getElem hlt, Option.getD_some]
  rw [List.drop_eq_getElem_cons hlt] at h
  rw [(List.cons.inj h).1]

theorem drop_succ_of_drop {i : Nat} {s s' : List Valtype} (hi : 1 ≤ i) (h : s.drop (i - 1) = vch :: s') :
    s.drop (i + 1 - 1) = s' := by
  rw [show i + 1 - 1 = i - 1 + 1 by omega, ← List.tail_drop, h, List.tail_cons]

/-- The signature loop of `OP_CHECKMULTISIG` on the keys and the signatures, each with the last one first. -/
def matchSigs (rules : EvalRules) (scriptCode : CScript) : List Valtype → List Valtype → Except EvalStop Bool
  | _, [] => .ok true
  | [], _ :: _ => .ok false
  | vchPubKey :: keys, vchSig :: sigs => do
    let fOk ← rules.checkSig vchSig vchPubKey scriptCode
    let sigs := if fOk then sigs else vchSig :: sigs
    if keys.length < sigs.length then .ok false else matchSigs rules scriptCode keys sigs

theorem multiSigLoop_eq (s : List Valtype) (scriptCode : CScript) : ∀ (keys sigs keys' sigs' : List Valtype)
    (ikey isig : Nat), 1 ≤ ikey → 1 ≤ isig → s.drop (ikey - 1) = keys ++ keys' →
    s.drop (isig - 1) = sigs ++ sigs' →
    multiSigLoop rules s scriptCode keys.length sigs.length ikey isig = matchSigs rules scriptCode keys sigs := by
  intro keys
  -- `ikey` and `isig` are the slots of the first key and of the first signature that are left
  induction keys with
  | nil =>
    intro sigs keys' sigs' ikey isig _ _ _ _
    cases sigs with
    | nil => rw [matchSigs, List.length_nil, multiSigLoop]
    | cons _ _ => rw [matchSigs, List.length_nil, List.length_cons, multiSigLoop]
  | cons vchPubKey keys ih =>
    intro sigs keys' sigs' ikey isig hikey hisig hkeys hsigs
    cases sigs with
    | nil => rw [matchSigs, List.length_nil, multiSigLoop]
    | cons vchSig sigs =>
      rw [matchSigs, List.length_cons, List.length_cons, multiSigLoop, stacktop_drop hisig hsigs,
        stacktop_drop hikey hkeys]
      cases hcheck : rules.checkSig vchSig vchPubKey scriptCode with
      | error e => simp only [bind, Except.bind, hcheck]
      | ok fOk =>
        have hkeys' := drop_succ_of_drop hikey hkeys
        cases fOk with
        | false =>
          have hrec := ih (vchSig :: sigs) keys' sigs' (ikey + 1) isig (by omega) hisig hkeys' hsigs
          simp only [bind, Except.bind, hcheck, Bool.false_eq_true, if_false, ← hrec]
          rfl
        | true =>
          have hrec := ih sigs keys' sigs' (ikey + 1) (isig + 1) (by omega) (by omega) hkeys'
            (drop_succ_of_drop hisig hsigs)
          simp only [bind, Except.bind, hcheck, if_true, ← hrec]

/-- The script code without these signatures. -/
def withoutSigs (sigs : List Valtype) (scriptCode : CScript) : CScript :=
  sigs.foldl (fun scriptCode vchSig => scriptCode.findAndDelete (pushVch vchSig)) scriptCode

theorem dropSigs_eq (s : List Valtype) : ∀ (sigs sigs' : List Valtype) (isig : Nat) (scriptCode : CScript),
    1 ≤ isig → s.drop (isig - 1) = sigs ++ sigs' →
    dropSigs s isig sigs.length scriptCode = .ok (withoutSigs sigs scriptCode) := by
  intro sigs
  induction sigs with
  | nil => exact fun _ _ _ _ _ => rfl
  | cons vchSig sigs ih =>
    intro sigs' isig scriptCode hisig hsigs
    rw [List.length_cons, dropSigs, stacktop_drop hisig hsigs]
    exact ih sigs' (isig + 1) _ (by omega) (drop_succ_of_drop hisig hsigs)

theorem popstacks_append : ∀ s s' : List Valtype, popstacks s.length (s ++ s') = .ok s' := by
  intro s s'
  induction s with
  | nil => rfl
  | cons vch s ih =>
    rw [List.length_cons, popstacks, List.cons_append, popstack_cons]
    exact ih

/-- The greedy pass over the keys, once no check fails the script. -/
theorem matchSigs_eq {ok : Valtype → Valtype → Bool} {scriptCode : CScript} : ∀ keys sigs : List Valtype,
    sigs.length ≤ keys.length →
    (∀ sig ∈ sigs, ∀ key ∈ keys, rules.checkSig sig key scriptCode = .ok (ok sig key)) →
    matchSigs rules scriptCode keys sigs = .ok (greedyMatch ok sigs keys) := by
  intro keys
  induction keys with
  | nil =>
    intro sigs hle _
    obtain rfl := List.length_eq_zero_iff.mp (Nat.le_zero.mp hle)
    rw [matchSigs, greedyMatch]
  | cons key keys ih =>
    intro sigs hle hok
    cases sigs with
    | nil => rw [matchSigs, greedyMatch]
    | cons sig sigs =>
      rw [matchSigs, hok sig List.mem_cons_self key List.mem_cons_self, greedyMatch]
      simp only [bind, Except.bind]
      rw [List.length_cons, List.length_cons] at hle
      cases ok sig key with
      | true =>
        rw [if_pos rfl, if_neg (by omega), if_pos rfl]
        exact ih sigs (by omega) fun s hs k hk => hok s (List.mem_cons_of_mem _ hs) k (List.mem_cons_of_mem _ hk)
      | false =>
        rw [if_neg Bool.false_ne_true, if_neg Bool.false_ne_true]
        split_ifs with hlt
        -- more signatures than keys are left
        · rw [greedyMatch_of_length_lt hlt]
        · exact ih (sig :: sigs) (by omega) fun s hs k hk => hok s hs k (List.mem_cons_of_mem _ hk)

end Loop

/-! ### The checks of the loop -/

/-- `multiSigLoop` with the slots of the signature and of the key that each check reads. -/
def multiSigChecks (rules : EvalRules) (stack : List Valtype) (scriptCode : CScript) :
    Nat → Nat → Nat → Nat → Except EvalStop (Bool × List (Nat × Nat))
  | _, 0, _, _ => .ok (true, [])
  | 0, _ + 1, _, _ => .ok (false, [])
  | nKeysCount + 1, nSigsCount + 1, ikey, isig => do
    let vchSig ← stacktop stack isig
    let vchPubKey ← stacktop stack ikey
    let fOk ← rules.checkSig vchSig vchPubKey scriptCode
    let nSigsLeft := if fOk then nSigsCount else nSigsCount + 1
    if nKeysCount < nSigsLeft then .ok (false, [(isig, ikey)])
    else do
      let r ← multiSigChecks rules stack scriptCode nKeysCount nSigsLeft (ikey + 1)
        (if fOk then isig + 1 else isig)
      return (r.1, (isig, ikey) :: r.2)

section Checks

variable {rules : EvalRules} {stack : List Valtype} {scriptCode : CScript}

theorem multiSigLoop_eq_fst (nKeysCount : Nat) : ∀ nSigsCount ikey isig : Nat,
    multiSigLoop rules stack scriptCode nKeysCount nSigsCount ikey isig =
      Prod.fst <$> multiSigChecks rules stack scriptCode nKeysCount nSigsCount ikey isig := by
  induction nKeysCount with
  | zero =>
    intro nSigsCount ikey isig
    cases nSigsCount <;> rfl
  | succ nKeysCount ih =>
    intro nSigsCount ikey isig
    cases nSigsCount with
    | zero => rfl
    | succ nSigsCount =>
      rw [multiSigLoop, multiSigChecks]
      cases stacktop stack isig with
      | error e => rfl
      | ok vchSig =>
        cases stacktop stack ikey with
        | error e => rfl
        | ok vchPubKey =>
          simp only [bind, Except.bind]
          cases rules.checkSig vchSig vchPubKey scriptCode with
          | error e => rfl
          | ok fOk =>
            dsimp only
            split_ifs with _ hlt hlt
            · rfl
            · rw [ih]
              cases multiSigChecks rules stack scriptCode nKeysCount nSigsCount (ikey + 1) (isig + 1) <;> rfl
            · rfl
            · rw [ih]
              cases multiSigChecks rules stack scriptCode nKeysCount (nSigsCount + 1) (ikey + 1) isig <;> rfl

/-- Each check takes a key, and the slots do not pass the last of the keys and of the signatures. -/
theorem multiSigChecks_inRange : ∀ (nKeysCount nSigsCount ikey isig : Nat) {f : Bool} {checks : List (Nat × Nat)},
    multiSigChecks rules stack scriptCode nKeysCount nSigsCount ikey isig = .ok (f, checks) →
    checks.length ≤ nKeysCount ∧ ∀ c ∈ checks,
      isig ≤ c.1 ∧ c.1 < isig + nSigsCount ∧ ikey ≤ c.2 ∧ c.2 < ikey + nKeysCount := by
  intro nKeysCount
  induction nKeysCount with
  | zero =>
    intro nSigsCount ikey isig f checks h
    cases nSigsCount with
    | zero =>
      cases h
      exact ⟨le_rfl, List.forall_mem_nil _⟩
    | succ nSigsCount =>
      cases h
      exact ⟨le_rfl, List.forall_mem_nil _⟩
  | succ nKeysCount ih =>
    intro nSigsCount ikey isig f checks h
    cases nSigsCount with
    | zero =>
      cases h
      exact ⟨Nat.zero_le _, List.forall_mem_nil _⟩
    | succ nSigsCount =>
      rw [multiSigChecks] at h
      obtain ⟨vchSig, _, h⟩ := bind_ok h
      obtain ⟨vchPubKey, _, h⟩ := bind_ok h
      obtain ⟨fOk, _, h⟩ := bind_ok h
      dsimp only at h
      by_cases hlt : nKeysCount < if fOk = true then nSigsCount else nSigsCount + 1
      · rw [if_pos hlt] at h
        cases h
        refine ⟨by rw [List.length_singleton]; omega, fun c hc => ?_⟩
        obtain rfl := List.mem_singleton.mp hc
        exact ⟨le_rfl, by dsimp only; omega, le_rfl, by dsimp only; omega⟩
      · rw [if_neg hlt] at h
        obtain ⟨r, hr, h⟩ := bind_ok h
        obtain ⟨hlen, hslots⟩ := ih _ _ _ hr
        cases h
        refine ⟨by rw [List.length_cons]; omega, fun c hc => ?_⟩
        rcases List.mem_cons.mp hc with rfl | hc
        · exact ⟨le_rfl, by dsimp only; omega, le_rfl, by dsimp only; omega⟩
        · have := hslots c hc
          cases fOk with
          | true =>
            simp only [if_true] at this
            omega
          | false =>
            simp only [Bool.false_eq_true, if_false] at this
            omega

end Checks

/-! ### The opcode -/

section Opcode

variable {rules : EvalRules} {st : EvalState} {vchKeys vchSigs dummy : Valtype} {keys sigs rest : List Valtype}

/-- The elements are the number of keys, the keys, the number of signatures, the signatures and one that is not
used, from the top on. -/
theorem evalCheckMultiSig_eq (hstack : st.stack = vchKeys :: (keys ++ vchSigs :: (sigs ++ dummy :: rest)))
    (hkeys : CScriptNum.ofVch vchKeys rules.fRequireMinimal = .ok (keys.length : Int))
    (hsigs : CScriptNum.ofVch vchSigs rules.fRequireMinimal = .ok (sigs.length : Int))
    (hn : keys.length ≤ 20) (hm : sigs.length ≤ keys.length) {fVerify : Bool} :
    evalCheckMultiSig rules fVerify st = (do
      failIf (201 < st.nOpCount + keys.length)
      let f ← matchSigs rules (withoutSigs sigs st.codehash) keys sigs
      failIf (rules.fNullDummy && !dummy.isEmpty)
      pushAnswer { st with nOpCount := st.nOpCount + keys.length } rest f fVerify) := by
  have hlength : st.stack.length = keys.length + sigs.length + rest.length + 3 := by
    simp only [hstack, List.length_cons, List.length_append]
    omega
  have hdropKeys : st.stack.drop (2 - 1) = keys ++ vchSigs :: (sigs ++ dummy :: rest) := by
    rw [hstack]
    rfl
  have hdropNum : st.stack.drop (2 + keys.length - 1) = vchSigs :: (sigs ++ dummy :: rest) := by
    rw [show 2 + keys.length - 1 = keys.length + 1 by omega, hstack, List.drop_succ_cons, List.drop_left]
  have hdropSigs : st.stack.drop (2 + keys.length + 1 - 1) = sigs ++ dummy :: rest :=
    drop_succ_of_drop (by omega) hdropNum
  have htop : stacktop st.stack 1 = .ok vchKeys := by rw [hstack, stacktop_one]
  have hint : ∀ k : Nat, k ≤ 20 → getint k = k := by
    intro k hk
    rw [getint, if_neg (by omega), if_neg (by omega)]
  have hpop : popstacks (2 + keys.length + 1 + sigs.length - 1) st.stack = .ok (dummy :: rest) := by
    have hsplit : st.stack = (vchKeys :: (keys ++ vchSigs :: sigs)) ++ dummy :: rest := by
      rw [hstack, List.cons_append, List.append_assoc, List.cons_append]
    have hcount : 2 + keys.length + 1 + sigs.length - 1 = (vchKeys :: (keys ++ vchSigs :: sigs)).length := by
      simp only [List.length_cons, List.length_append]
      omega
    rw [hcount, hsplit, popstacks_append]
  have hfalse : ∀ {c : Prop} [Decidable c], ¬ c → failIf (decide c) = .ok () := by
    intro c _ hc
    rw [decide_eq_false hc, failIf_false]
  have hrange : (decide ((keys.length : Int) < 0) || decide ((20 : Int) < keys.length)) = false := by
    rw [decide_eq_false (by omega), decide_eq_false (by omega), Bool.or_self]
  have hrange' : (decide ((sigs.length : Int) < 0) || decide ((keys.length : Int) < sigs.length)) = false := by
    rw [decide_eq_false (by omega), decide_eq_false (by omega), Bool.or_self]
  have hone : ¬ (dummy :: rest).length < 1 := by
    rw [List.length_cons]
    omega
  rw [evalCheckMultiSig]
  dsimp only
  rw [hfalse (by omega), htop]
  simp only [bind, Except.bind, hkeys, hint _ hn, hrange, failIf_false, Int.toNat_natCast]
  cases hops : failIf (decide (201 < st.nOpCount + keys.length)) with
  | error e => rfl
  | ok _ =>
    dsimp only
    rw [hfalse (show ¬ st.stack.length < 2 + keys.length by omega), stacktop_drop (by omega) hdropNum]
    simp only [hsigs, hint _ (hm.trans hn), hrange', failIf_false, Int.toNat_natCast]
    rw [hfalse (show ¬ st.stack.length < 2 + keys.length + 1 + sigs.length by omega),
      dropSigs_eq st.stack sigs (dummy :: rest) _ _ (by omega) hdropSigs]
    dsimp only
    rw [multiSigLoop_eq st.stack _ keys sigs _ _ 2 _ (by omega) (by omega) hdropKeys hdropSigs]
    cases matchSigs rules (withoutSigs sigs st.codehash) keys sigs with
    | error e => rfl
    | ok f =>
      simp only [hpop, hfalse hone, stacktop_one, popstack_cons]

def sampleRules : EvalRules where
  crypto := sampleCrypto
  fRequireMinimal := true
  checkPush _ _ := true
  fDiscourageNops := false
  fNullDummy := true
  checkSig vchSig vchPubKey _ := .ok (decide (vchSig = vchPubKey))

def sampleMultiSig : EvalState where
  stack := [[3], [3], [2], [1], [2], [3], [2], [], [9]]
  pc := []
  codehash := []

/-- `keys` and `sigs` are in the order of the script.  The checks use the script code without the signatures. -/
theorem evalCheckMultiSig_ordered {ok : Valtype → Valtype → Bool}
    (hstack : st.stack = vchKeys :: (keys.reverse ++ vchSigs :: (sigs.reverse ++ dummy :: rest)))
    (hkeys : CScriptNum.ofVch vchKeys rules.fRequireMinimal = .ok (keys.length : Int))
    (hsigs : CScriptNum.ofVch vchSigs rules.fRequireMinimal = .ok (sigs.length : Int))
    (hn : keys.length ≤ 20) (hm : sigs.length ≤ keys.length)
    (hok : ∀ sig ∈ sigs, ∀ key ∈ keys,
      rules.checkSig sig key (withoutSigs sigs.reverse st.codehash) = .ok (ok sig key)) :
    ∃ (fSuccess : Bool) (checks : List (Nat × Nat)),
      (fSuccess = true ↔
        ∃ f : Fin sigs.length → Fin keys.length, StrictMono f ∧
          ∀ i, ok (sigs.get i) (keys.get (f i)) = true) ∧
      evalCheckMultiSig rules false st =
        (if 201 < st.nOpCount + keys.length ∨ (rules.fNullDummy = true ∧ dummy ≠ []) then .error .fail
        else .ok { st with stack := vchBool fSuccess :: rest, nOpCount := st.nOpCount + keys.length }) ∧
      (∀ nKeysCount nSigsCount ikey isig : Nat,
        multiSigLoop rules st.stack (withoutSigs sigs.reverse st.codehash) nKeysCount nSigsCount ikey isig =
          Prod.fst <$> multiSigChecks rules st.stack (withoutSigs sigs.reverse st.codehash) nKeysCount
            nSigsCount ikey isig) ∧
      multiSigChecks rules st.stack (withoutSigs sigs.reverse st.codehash) keys.length sigs.length 2
        (2 + keys.length + 1) = .ok (fSuccess, checks) ∧
      checks.length ≤ keys.length ∧
      ∀ c ∈ checks, 2 ≤ c.2 ∧ c.2 < 2 + keys.length ∧
        2 + keys.length + 1 ≤ c.1 ∧ c.1 < 2 + keys.length + 1 + sigs.length := by
  have hmatch : matchSigs rules (withoutSigs sigs.reverse st.codehash) keys.reverse sigs.reverse =
      .ok (greedyMatch ok sigs.reverse keys.reverse) := matchSigs_eq keys.reverse sigs.reverse
    (by rwa [List.length_reverse, List.length_reverse])
    fun sig hsig key hkey => hok sig (List.mem_reverse.mp hsig) key (List.mem_reverse.mp hkey)
  have hop := @evalCheckMultiSig_eq rules st vchKeys vchSigs dummy keys.reverse sigs.reverse rest hstack
    (by rwa [List.length_reverse]) (by rwa [List.length_reverse]) (by rwa [List.length_reverse])
    (by rwa [List.length_reverse, List.length_reverse]) false
  -- the slots hold the last key and the last signature first
  have hloop := @multiSigLoop_eq rules st.stack (withoutSigs sigs.reverse st.codehash) keys.reverse
    sigs.reverse _ _ 2 (2 + keys.length + 1) (by omega) (by omega) (by rw [hstack]; rfl) (by
      rw [hstack, show 2 + keys.length + 1 - 1 = keys.reverse.length + 1 + 1 by rw [List.length_reverse]; omega,
        List.drop_succ_cons, ← List.tail_drop, List.drop_left]
      rfl)
  rw [hmatch, multiSigLoop_eq_fst, List.length_reverse, List.length_reverse] at hloop
  rw [hmatch, List.length_reverse] at hop
  obtain ⟨⟨f, checks⟩, hchecks, hf⟩ : ∃ r,
      multiSigChecks rules st.stack (withoutSigs sigs.reverse st.codehash)
      keys.length sigs.length 2 (2 + keys.length + 1) = .ok r ∧ r.1 = greedyMatch ok sigs.reverse keys.reverse := by
    cases hc : multiSigChecks rules st.stack (withoutSigs sigs.reverse st.codehash) keys.length sigs.length 2
        (2 + keys.length + 1) with
    | error e =>
      rw [hc] at hloop
      cases hloop
    | ok r =>
      rw [hc] at hloop
      exact ⟨r, rfl, Except.ok.inj hloop⟩
  dsimp only at hf
  subst hf
  obtain ⟨hlen, hslots⟩ := multiSigChecks_inRange _ _ _ _ hchecks
  refine ⟨greedyMatch ok sigs.reverse keys.reverse, checks, greedyMatch_reverse_iff sigs keys, ?_,
    multiSigLoop_eq_fst, hchecks, hlen, fun c hc => ?_⟩
  · rw [hop]
    by_cases hcount : 201 < st.nOpCount + keys.length
    · rw [decide_eq_true hcount, failIf_true, if_pos (.inl hcount)]
      rfl
    · rw [decide_eq_false hcount, failIf_false]
      by_cases hdummy : rules.fNullDummy = true ∧ dummy ≠ []
      · have hsome : (rules.fNullDummy && !dummy.isEmpty) = true := by
          rw [hdummy.1, Bool.true_and, Bool.not_eq_true', ← Bool.not_eq_true, List.isEmpty_iff]
          exact hdummy.2
        rw [if_pos (.inr hdummy), hsome, failIf_true]
        rfl
      · have hnone : (rules.fNullDummy && !dummy.isEmpty) = false := by
          rw [Bool.and_eq_false_iff, Bool.not_eq_false', List.isEmpty_iff]
          by_cases hnull : rules.fNullDummy = true
          · exact .inr (not_not.mp fun h => hdummy ⟨hnull, h⟩)
          · exact .inl (Bool.not_eq_true _ ▸ hnull)
        rw [if_neg (not_or.mpr ⟨hcount, hdummy⟩), hnone, failIf_false]
        rfl
  · have := hslots c hc
    omega

/-- Two signatures, the second and the third of three keys, and the empty dummy. -/
theorem evalCheckMultiSig_ordered_sample :
    ∃ (fSuccess : Bool) (checks : List (Nat × Nat)),
      (fSuccess = true ↔ ∃ f : Fin 2 → Fin 3, StrictMono f ∧
        ∀ i, decide ([[2], [3]].get i = ([[1], [2], [3]] : List Valtype).get (f i)) = true) ∧
      evalCheckMultiSig sampleRules false sampleMultiSig =
        (if 201 < 0 + 3 ∨ (true = true ∧ ([] : Valtype) ≠ []) then .error .fail
        else .ok { sampleMultiSig with stack := vchBool fSuccess :: [[9]], nOpCount := 0 + 3 }) := by
  obtain ⟨f, checks, hf, hrun, -⟩ := @evalCheckMultiSig_ordered sampleRules sampleMultiSig [3] [2] []
    [[1], [2], [3]] [[2], [3]] [[9]] (fun sig key => decide (sig = key)) rfl rfl rfl (by decide) (by decide)
    fun _ _ _ _ => rfl
  exact ⟨f, checks, hf, hrun⟩

end Opcode

end Sphinx
