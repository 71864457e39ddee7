import Sphinx.Script.Equiv.StandardScripts

/-!
# What the wallet signs, blocks accept

`SignSignature` and `ProduceSignature` test what they have made with the interpreter of a checker, under flags
without the pay-to-script-hash step.  For other scripts the test is enough; behind a script hash the redemption
script is not run, and a hash type that blocks do not accept goes unnoticed.

* `signStep_spec`, `solverSign_eq`: what the two ways of signing make, which is the same;
* `verifyScript_of_checker`: without a script hash, what passes the test is accepted in blocks;
* `verifyScript_p2sh_iff`: with one, it is if the hash type is one of those that blocks accept;
* `verifyScript_iff_of_signSignature`: both for the two functions.
-/

namespace Sphinx

open CScript Checked

variable {vchSig vchPubKey id : Valtype} {fromPubKey c scriptSig : CScript}

/-! ### Keys -/

/-- What is assumed of a key: it makes low-S DER signatures that verify under its public key. -/
structure CKey.Sound (crypto : ScriptCrypto) (key : CKey) : Prop where
  pubKey : checkPubKeyEncoding key.pubKey = true
  lowDER : ∀ hash test vchSig b, key.sign hash test = some vchSig → isLowDERSignature crypto (vchSig ++ [b]) = true
  verify : ∀ hash test vchSig, key.sign hash test = some vchSig → crypto.verify key.pubKey hash vchSig = true

/-- The keys of a store are under the ids of their public keys, and the id of a public key only has the key of
this public key. -/
structure CKeyStore.Sound (crypto : ScriptCrypto) (keystore : CKeyStore) : Prop where
  key : ∀ id key, keystore.getKey id = some key → key.Sound crypto
  id : ∀ id key, keystore.getKey id = some key → crypto.hash .hash160 key.pubKey = id
  pubKey : ∀ vch key, keystore.getKey (pubKeyID crypto vch) = some key → key.pubKey = pubKeyOfVch vch
  getPubKey : ∀ id key, keystore.getKey id = some key → keystore.getPubKey id = some key.pubKey

section Signed

variable (crypto : ScriptCrypto) (keystore : CKeyStore) (txTo : CTransaction) (nIn : Nat) (nHashType : Int)

/-- A signature for the script code, with the hash type, by the key that the store has under the id. -/
def SignedBy (scriptCode : CScript) (id vchSig : Valtype) : Prop :=
  ∃ key test der, keystore.getKey id = some key ∧
    key.sign (signatureHash crypto scriptCode txTo nIn nHashType) test = some der ∧
    vchSig = der ++ [hashTypeByte nHashType]

/-- What signing leaves for a script that is not pay-to-script-hash. -/
inductive Signed (scriptCode : CScript) : List Valtype → Prop
  | pubkey {op : Nat} {vchPubKey vchSig : Valtype} :
      Reads scriptCode [(op, vchPubKey), (OP_CHECKSIG, [])] → isPubKeySize vchPubKey = true →
      SignedBy crypto keystore txTo nIn nHashType scriptCode (pubKeyID crypto vchPubKey) vchSig →
      Signed scriptCode [vchSig]
  | pubkeyhash {op : Nat} {keyID vchSig : Valtype} :
      Reads scriptCode [(OP_DUP, []), (OP_HASH160, []), (op, keyID), (OP_EQUALVERIFY, []), (OP_CHECKSIG, [])] →
      keyID.length = 20 → SignedBy crypto keystore txTo nIn nHashType scriptCode keyID vchSig →
      Signed scriptCode [vchSig, (keystore.getPubKey keyID).getD []]
  | multisig {keys : List (Nat × Valtype)} {signers sigs : List Valtype} :
      Reads scriptCode ((OP_1 - 1 + sigs.length, []) ::
        (keys ++ [(OP_1 - 1 + keys.length, []), (OP_CHECKMULTISIG, [])])) →
      (∀ key ∈ keys, isPubKeySize key.2 = true) → 1 ≤ sigs.length → sigs.length ≤ keys.length →
      keys.length ≤ 16 → signers.Sublist (keys.map Prod.snd) →
      List.Forall₂ (fun vchPubKey vchSig => SignedBy crypto keystore txTo nIn nHashType scriptCode
        (pubKeyID crypto vchPubKey) vchSig) signers sigs →
      Signed scriptCode ([] :: sigs)

end Signed

/-! ### The two ways of signing -/

section Creator

variable {crypto : ScriptCrypto} {keystore : CKeyStore} {creator : Valtype → CScript → Option Valtype}

/-- The creator of signatures that is behind `Sign1`. -/
def sign1Creator (keystore : CKeyStore) (hash : Uint256) (nHashType : Int) (address : Valtype)
    (_scriptCode : CScript) : Option Valtype :=
  (keystore.getKey address).bind fun key => (key.sign hash 1).map fun vchSig => vchSig ++ [hashTypeByte nHashType]

theorem pushAll_append (values : List Valtype) (vch : Valtype) :
    pushAll (values ++ [vch]) = pushAll values ++ pushVch vch := by
  rw [pushAll, List.flatMap_append, List.flatMap_singleton]
  rfl

theorem sign1_eq (address : Valtype) (hash : Uint256) (nHashType : Int) (scriptCode : CScript)
    (ret : List Valtype) : sign1 keystore address hash nHashType (pushAll ret) =
      ((sign1c (sign1Creator keystore hash nHashType) address scriptCode ret).1,
        pushAll (sign1c (sign1Creator keystore hash nHashType) address scriptCode ret).2) := by
  unfold sign1 sign1c sign1Creator
  cases keystore.getKey address with
  | none => rfl
  | some key =>
    dsimp only [Option.bind_some]
    cases key.sign hash 1 with
    | none => rfl
    | some vchSig => exact Prod.ext rfl (pushAll_append ret _).symm

theorem signNLoop_eq (hash : Uint256) (nHashType : Int) (scriptCode : CScript) (nRequired : Nat) :
    ∀ (keys : List Valtype) (nSigned : Nat) (ret : List Valtype),
      signNLoop crypto keystore hash nHashType nRequired keys nSigned (pushAll ret) =
        ((signNcLoop crypto (sign1Creator keystore hash nHashType) scriptCode nRequired keys nSigned ret).1,
          pushAll (signNcLoop crypto (sign1Creator keystore hash nHashType) scriptCode nRequired keys nSigned
            ret).2) := by
  intro keys
  induction keys with
  | nil => exact fun _ _ => rfl
  | cons pubkey keys ih =>
    intro nSigned ret
    rw [signNLoop, signNcLoop]
    split
    · rw [sign1_eq _ _ _ scriptCode]
      exact ih _ _
    · rfl

/-- `Solver` with a key store writes what `SignStep` collects. -/
theorem solverSign_eq (scriptPubKey : CScript) (hash : Uint256) (nHashType : Int) :
    solverSign crypto keystore scriptPubKey hash nHashType =
      let r := signStep crypto keystore (sign1Creator keystore hash nHashType) scriptPubKey
      (r.1, if r.2.2 = .scripthash then r.2.1.headD [] else pushAll r.2.1, r.2.2) := by
  unfold solverSign signStep
  cases scriptPubKey.solver with
  | none => rfl
  | some solution =>
    obtain ⟨whichType, vSolutions⟩ := solution
    cases whichType with
    | nonstandard => rfl
    | nullData => rfl
    | pubkey =>
      have h : sign1 keystore (pubKeyID crypto (vSolutions.headD [])) hash nHashType [] = _ :=
        sign1_eq _ hash nHashType scriptPubKey []
      dsimp only
      rw [h]
      rfl
    | pubkeyhash =>
      have h : sign1 keystore (vSolutions.headD []) hash nHashType [] = _ :=
        sign1_eq _ hash nHashType scriptPubKey []
      dsimp only
      rw [h]
      split
      · rfl
      · exact Prod.ext rfl (Prod.ext (pushAll_append _ _).symm rfl)
    | scripthash =>
      dsimp only
      cases keystore.getCScript (vSolutions.headD []) with
      | none => rfl
      | some script => rfl
    | multisig =>
      have h : signNLoop crypto keystore hash nHashType (multisigRequired vSolutions) (multisigKeys vSolutions) 0
          [UInt8.ofNat OP_0] = _ := signNLoop_eq hash nHashType scriptPubKey _ _ 0 [[]]
      dsimp only [signN, signNc]
      rw [h]
      rfl

theorem sign1c_ok {address : Valtype} {scriptCode : CScript} {ret : List Valtype}
    (h : (sign1c creator address scriptCode ret).1 = true) :
    ∃ vchSig, creator address scriptCode = some vchSig ∧
      (sign1c creator address scriptCode ret).2 = ret ++ [vchSig] := by
  unfold sign1c at h ⊢
  cases hsig : creator address scriptCode with
  | none =>
    rw [hsig] at h
    cases h
  | some vchSig => exact ⟨vchSig, rfl, rfl⟩

/-- The loop signs with the keys of a part of the list, in its order. -/
theorem signNcLoop_spec (scriptCode : CScript) (nRequired : Nat) : ∀ (keys : List Valtype) (nSigned : Nat)
    (ret : List Valtype), ∃ signers sigs, signers.Sublist keys ∧
      List.Forall₂ (fun vchPubKey vchSig => creator (pubKeyID crypto vchPubKey) scriptCode = some vchSig)
        signers sigs ∧
      signNcLoop crypto creator scriptCode nRequired keys nSigned ret = (nSigned + sigs.length, ret ++ sigs) := by
  intro keys
  induction keys with
  | nil =>
    intro nSigned ret
    exact ⟨[], [], .slnil, .nil, by rw [signNcLoop, List.append_nil]; rfl⟩
  | cons pubkey keys ih =>
    intro nSigned ret
    rw [signNcLoop]
    split
    · dsimp only [sign1c]
      cases hsig : creator (pubKeyID crypto pubkey) scriptCode with
      | none =>
        obtain ⟨signers, sigs, hsub, hsigs, hloop⟩ := ih nSigned ret
        exact ⟨signers, sigs, hsub.cons pubkey, hsigs, hloop⟩
      | some vchSig =>
        obtain ⟨signers, sigs, hsub, hsigs, hloop⟩ := ih (nSigned + 1) (ret ++ [vchSig])
        refine ⟨pubkey :: signers, vchSig :: sigs, hsub.cons_cons pubkey, .cons hsig hsigs, ?_⟩
        dsimp only
        rw [if_pos rfl, hloop, List.append_assoc, List.singleton_append, List.length_cons, Nat.add_assoc,
          Nat.add_comm 1]
    · exact ⟨[], [], List.nil_sublist _, .nil, by rw [List.append_nil]; rfl⟩

theorem solver_scripthash {script : CScript} (h : script.isPayToScriptHash = true) :
    script.solver = some (.scripthash, [(script.drop 2).take 20]) := by
  rw [solver, if_pos h]

variable {txTo : CTransaction} {nIn : Nat} {nHashType : Int}

theorem multisigKeys_cons {m n : Valtype} {keys : List Valtype} : multisigKeys (m :: (keys ++ [n])) = keys := by
  rw [multisigKeys, List.drop_one, List.tail_cons, List.dropLast_concat]

theorem multisigRequired_cons {m : Nat} {vSolutions : List Valtype} (hm : m ≤ 16) :
    multisigRequired ([UInt8.ofNat m] :: vSolutions) = m := by
  rw [multisigRequired, List.headD_cons, List.headD_cons]
  exact toNat_ofNat_lt (by omega)

/-- `SignStep` signs a script, or it finds the redemption script. -/
theorem signStep_spec {scriptCode : CScript} {ret : List Valtype} {whichType : Txnouttype}
    (hcreator : ∀ id vchSig, creator id scriptCode = some vchSig →
      SignedBy crypto keystore txTo nIn nHashType scriptCode id vchSig)
    (h : signStep crypto keystore creator scriptCode = (true, ret, whichType)) :
    (whichType = .scripthash ∧ scriptCode.isPayToScriptHash = true ∧
      ∃ script, keystore.getCScript ((scriptCode.drop 2).take 20) = some script ∧ ret = [script]) ∨
    (whichType ≠ .scripthash ∧ scriptCode.isPayToScriptHash = false ∧
      Signed crypto keystore txTo nIn nHashType scriptCode ret) := by
  have hp2sh : ∀ {vSolutions}, scriptCode.solver = some (whichType, vSolutions) → whichType ≠ .scripthash →
      scriptCode.isPayToScriptHash = false := by
    intro vSolutions hsolver hne
    by_contra hp2sh
    rw [solver_scripthash (Bool.not_eq_false _ ▸ hp2sh)] at hsolver
    cases hsolver
    exact hne rfl
  unfold signStep at h
  cases hsolver : scriptCode.solver with
  | none =>
    rw [hsolver] at h
    cases h
  | some solution =>
    obtain ⟨whichType', vSolutions⟩ := solution
    rw [hsolver] at h
    have hstandard := standardScript_of_solver hsolver
    cases hstandard with
    | nullData => cases h
    | pubkey hreads hsize =>
      dsimp only at h
      obtain ⟨hok, hret, rfl⟩ : _ = true ∧ _ = ret ∧ _ = whichType := by simpa only [Prod.mk.injEq] using h
      obtain ⟨vchSig, hsig, hret'⟩ := sign1c_ok hok
      refine .inr ⟨by decide, hp2sh hsolver (by decide), ?_⟩
      rw [← hret, hret']
      exact .pubkey hreads hsize (hcreator _ _ hsig)
    | pubkeyhash hreads hsize =>
      dsimp only at h
      split at h
      · cases h
      · next hok =>
        obtain ⟨-, hret, rfl⟩ : _ ∧ _ = ret ∧ _ = whichType := by simpa only [Prod.mk.injEq] using h
        obtain ⟨vchSig, hsig, hret'⟩ := sign1c_ok (by simpa using hok)
        refine .inr ⟨by decide, hp2sh hsolver (by decide), ?_⟩
        rw [← hret, List.headD_cons, hret']
        exact .pubkeyhash hreads hsize (hcreator _ _ hsig)
    | scripthash hscript =>
      dsimp only at h
      split at h
      · cases h
      · next script hfound =>
        cases h
        exact .inl ⟨rfl, hscript, script, hfound, rfl⟩
    | multisig hreads hkeys hcount hm hmn hn =>
      dsimp only [signNc] at h
      obtain ⟨hok, hret, rfl⟩ : _ = true ∧ _ = ret ∧ _ = whichType := by simpa only [Prod.mk.injEq] using h
      rw [multisigRequired_cons (by omega), multisigKeys_cons] at hok hret
      obtain ⟨signers, sigs, hsub, hsigs, hloop⟩ := @signNcLoop_spec crypto creator scriptCode _ _ 0 [[]]
      rw [hloop] at hok hret
      dsimp only at hok hret
      rw [decide_eq_true_eq, Nat.zero_add] at hok
      refine .inr ⟨by decide, hp2sh hsolver (by decide), ?_⟩
      subst hok hcount hret
      exact .multisig hreads hkeys hm hmn hn hsub (hsigs.imp fun _ _ => hcreator _ _)

end Creator

/-! ### The signatures of a run -/

section Check

variable {crypto : ScriptCrypto} {txTo : CTransaction} {nIn : Nat}

section

variable (crypto : ScriptCrypto) (txTo : CTransaction) (nIn : Nat)

/-- A signature check of blocks without flags. -/
def blockCheckSig (vchSig vchPubKey : Valtype)
    (scriptCode : CScript) : Bool :=
  checkSignatureEncoding crypto vchSig && checkPubKeyEncoding vchPubKey &&
    SignatureChecker.checkSig crypto txTo nIn vchSig vchPubKey scriptCode

/-- The rules of blocks, and those of the test after signing. -/
def blockRules : EvalRules :=
  evalRules crypto txTo nIn mandatoryScriptVerifyFlags 0

def testRules : EvalRules :=
  checkerRules crypto (SignatureChecker.checkSig crypto txTo nIn) standardScriptVerifyFlags

end

theorem blockRules_plain : (blockRules crypto txTo nIn).Plain where
  minimal := Nat.zero_testBit SCRIPT_VERIFY_MINIMALDATA
  push _ _ := rfl

theorem testRules_plain : (testRules crypto txTo nIn).Plain where
  minimal := show standardScriptVerifyFlags.testBit SCRIPT_VERIFY_MINIMALDATA = false by decide
  push _ _ := by
    have hminimal : standardScriptVerifyFlags.testBit SCRIPT_VERIFY_MINIMALDATA = false := by decide
    simp only [testRules, checkerRules, hminimal, Bool.false_and, Bool.not_false]

theorem blockRules_crypto : (blockRules crypto txTo nIn).crypto = crypto := rfl

theorem testRules_crypto : (testRules crypto txTo nIn).crypto = crypto := rfl

theorem checkSig_zero (crypto : ScriptCrypto) (txTo : CTransaction) (nIn : Nat) :
    (fun vchSig vchPubKey scriptCode => checkSig crypto vchSig vchPubKey scriptCode txTo nIn 0) =
      SignatureChecker.checkSig crypto txTo nIn := by
  funext vchSig vchPubKey scriptCode
  unfold checkSig SignatureChecker.checkSig
  simp only [ne_eq, not_true_eq_false, false_and, if_false]

theorem blockRules_checkSig (vchSig vchPubKey : Valtype) (scriptCode : CScript) :
    (blockRules crypto txTo nIn).checkSig vchSig vchPubKey scriptCode =
      .ok (blockCheckSig crypto txTo nIn vchSig vchPubKey scriptCode) := by
  have hstrict : mandatoryScriptVerifyFlags.testBit SCRIPT_VERIFY_STRICTENC = false := Nat.zero_testBit _
  have hcheck := congrFun (congrFun (congrFun (checkSig_zero crypto txTo nIn) vchSig) vchPubKey) scriptCode
  simp only [blockRules, evalRules, hstrict, Bool.false_and, failIf_false, blockCheckSig, hcheck]
  rfl

theorem blockCheckSig_of_test {scriptCode : CScript} (hlow : isLowDERSignature crypto vchSig = true) :
    Implies ((testRules crypto txTo nIn).checkSig vchSig vchPubKey scriptCode)
      ((blockRules crypto txTo nIn).checkSig vchSig vchPubKey scriptCode) := by
  rw [blockRules_checkSig]
  intro b hb
  have hstrict : standardScriptVerifyFlags.testBit SCRIPT_VERIFY_STRICTENC = true := by decide
  have hlowS : standardScriptVerifyFlags.testBit SCRIPT_VERIFY_LOW_S = false := by decide
  have hder : isDERSignature vchSig true = true := by
    rw [isLowDERSignature, Bool.and_eq_true] at hlow
    exact hlow.1
  simp only [testRules, checkerRules, checkSignatureEncodingFlags, checkPubKeyEncodingFlags, hstrict, hlowS, hder,
    Bool.not_true, Bool.and_false, Bool.false_eq_true, if_false, Bool.false_and, Bool.true_and, Bool.not_not] at hb
  cases hdefined : isDefinedHashtypeSignature vchSig with
  | false =>
    rw [hdefined] at hb
    cases hb
  | true =>
    cases hpubkey : checkPubKeyEncoding vchPubKey with
    | false =>
      rw [hdefined, hpubkey] at hb
      cases hb
    | true =>
      rw [hdefined, hpubkey] at hb
      rw [← hb, blockCheckSig, checkSignatureEncoding, hlow, hdefined, hpubkey]
      rfl

/-! ### The hash does not depend on the scripts of the inputs -/

theorem signatureHash_setScriptSig (scriptCode : CScript) (i : Nat) (scriptSig : CScript) (nHashType : Int) :
    signatureHash crypto scriptCode (txTo.setScriptSig i scriptSig) nIn nHashType =
      signatureHash crypto scriptCode txTo nIn nHashType := by
  have hvin : ∀ script : CScript, (txTo.setScriptSig i scriptSig).vin.mapIdx
      (fun j txin => { txin with scriptSig := if j = nIn then script else [] }) =
      txTo.vin.mapIdx fun j txin => { txin with scriptSig := if j = nIn then script else [] } := by
    intro script
    rw [CTransaction.setScriptSig, List.mapIdx_mapIdx]
    congr 1
    funext j txin
    dsimp only [Function.comp]
    split <;> rfl
  have hlength : (txTo.setScriptSig i scriptSig).vin.length = txTo.vin.length := List.length_mapIdx
  unfold signatureHash
  simp only [hvin, hlength]
  rfl

theorem signatureChecker_setScriptSig (i : Nat) (scriptSig : CScript) :
    SignatureChecker.checkSig crypto (txTo.setScriptSig i scriptSig) nIn =
      SignatureChecker.checkSig crypto txTo nIn := by
  funext vchSig vchPubKey scriptCode
  unfold SignatureChecker.checkSig
  simp only [signatureHash_setScriptSig]

theorem blockRules_setScriptSig (i : Nat) (scriptSig : CScript) :
    blockRules crypto (txTo.setScriptSig i scriptSig) nIn = blockRules crypto txTo nIn := by
  have hcheck : (blockRules crypto (txTo.setScriptSig i scriptSig) nIn).checkSig =
      (blockRules crypto txTo nIn).checkSig := by
    funext vchSig vchPubKey scriptCode
    rw [blockRules_checkSig, blockRules_checkSig, blockCheckSig, blockCheckSig, signatureChecker_setScriptSig]
  simp only [blockRules, evalRules, EvalRules.mk.injEq] at hcheck ⊢
  exact ⟨trivial, trivial, trivial, trivial, trivial, hcheck⟩

end Check

/-! ### Matching signatures with keys -/

section Match

variable {rules rules' : EvalRules} {scriptCode : CScript}

theorem matchSigs_nil (keys : List Valtype) : matchSigs rules scriptCode keys [] = .ok true := by
  cases keys <;> rfl

theorem matchSigs_implies : ∀ (keys sigs : List Valtype), (∀ vchSig ∈ sigs, ∀ vchPubKey,
    Implies (rules.checkSig vchSig vchPubKey scriptCode) (rules'.checkSig vchSig vchPubKey scriptCode)) →
      Implies (matchSigs rules scriptCode keys sigs) (matchSigs rules' scriptCode keys sigs) := by
  intro keys
  induction keys with
  | nil =>
    intro sigs _
    cases sigs <;> exact .refl _
  | cons vchPubKey keys ih =>
    intro sigs hsigs
    cases sigs with
    | nil => exact .refl _
    | cons vchSig sigs =>
      obtain ⟨hsig, hsigs'⟩ := List.forall_mem_cons.mp hsigs
      rw [matchSigs, matchSigs]
      refine (hsig vchPubKey).bind fun fOk => ?_
      have hrest : ∀ sigs, Implies (matchSigs rules scriptCode keys sigs) (matchSigs rules' scriptCode keys sigs) →
          Implies (if keys.length < sigs.length then .ok false else matchSigs rules scriptCode keys sigs)
            (if keys.length < sigs.length then .ok false else matchSigs rules' scriptCode keys sigs) := by
        intro sigs h
        split
        · exact .refl _
        · exact h
      cases fOk with
      | false => exact hrest _ (ih _ hsigs)
      | true => exact hrest _ (ih _ hsigs')

variable {check : Valtype → Valtype → Bool}

/-- Taking the first key that fits does not miss a way of matching all signatures. -/
theorem matchSigs_true (hcheck : ∀ vchSig vchPubKey,
    rules.checkSig vchSig vchPubKey scriptCode = .ok (check vchSig vchPubKey)) :
    ∀ (keys sigs signers : List Valtype), signers.Sublist keys →
      List.Forall₂ (fun vchPubKey vchSig => check vchSig vchPubKey = true) signers sigs →
      matchSigs rules scriptCode keys sigs = .ok true := by
  intro keys
  induction keys with
  | nil =>
    intro sigs signers hsub hsigs
    obtain rfl := List.sublist_nil.mp hsub
    cases hsigs
    rfl
  | cons vchPubKey keys ih =>
    intro sigs signers hsub hsigs
    cases hsigs with
    | nil => exact matchSigs_nil _
    | @cons signer vchSig signers sigs hsig hsigs =>
      have hrest : signers.Sublist keys := by
        cases hsub with
        | cons _ hsub => exact (List.sublist_cons_self _ _).trans hsub
        | cons_cons _ hsub => exact hsub
      have hlength := hsigs.length_eq
      rw [matchSigs, hcheck]
      cases hfits : check vchSig vchPubKey with
      | true =>
        have hle := hrest.length_le
        simp only [bind, Except.bind, if_true]
        rw [if_neg (by omega)]
        exact ih sigs signers hrest hsigs
      | false =>
        -- the key is not the one that has signed, so the signers are among the other keys
        have hall : (signer :: signers).Sublist keys := by
          cases hsub with
          | cons _ hsub => exact hsub
          | cons_cons _ _ =>
            rw [hsig] at hfits
            cases hfits
        have hle := hall.length_le
        rw [List.length_cons] at hle
        simp only [bind, Except.bind, Bool.false_eq_true, if_false, List.length_cons]
        rw [if_neg (by omega)]
        exact ih _ _ hall (.cons hsig hsigs)

theorem matchSigs_false
    (hcheck : ∀ vchSig vchPubKey, rules.checkSig vchSig vchPubKey scriptCode = .ok (check vchSig vchPubKey))
    (sigs : List Valtype) : ∀ keys : List Valtype, (∀ vchPubKey ∈ keys, check vchSig vchPubKey = false) →
      matchSigs rules scriptCode keys (vchSig :: sigs) = .ok false := by
  intro keys
  induction keys with
  | nil => exact fun _ => rfl
  | cons vchPubKey keys ih =>
    intro hsig
    rw [List.forall_mem_cons] at hsig
    rw [matchSigs, hcheck, hsig.1]
    simp only [bind, Except.bind, Bool.false_eq_true, if_false, ih hsig.2, ite_self]

end Match

/-! ### Without a script hash -/

section Accept

variable {crypto : ScriptCrypto} {keystore : CKeyStore} {txTo : CTransaction} {nIn : Nat} {nHashType : Int}
  {scriptCode : CScript} {ret : List Valtype}

theorem SignedBy.lowDER (hstore : keystore.Sound crypto)
    (h : SignedBy crypto keystore txTo nIn nHashType scriptCode id vchSig) :
    isLowDERSignature crypto vchSig = true := by
  obtain ⟨key, test, der, hkey, hsign, rfl⟩ := h
  exact (hstore.key _ _ hkey).lowDER _ _ _ _ hsign

theorem forall_of_forall₂ {R : Valtype → Valtype → Prop} {p : Valtype → Prop} (hp : ∀ k s, R k s → p s) :
    ∀ {signers sigs : List Valtype}, List.Forall₂ R signers sigs → ∀ vchSig ∈ sigs, p vchSig := by
  intro signers sigs h
  induction h with
  | nil => exact fun _ hmem => (nomatch hmem)
  | cons hsig _ ih => exact List.forall_mem_cons.mpr ⟨hp _ _ hsig, ih⟩

/-- What a signed script leaves in the test, it leaves in a block. -/
theorem Signed.implies (hstore : keystore.Sound crypto)
    (h : Signed crypto keystore txTo nIn nHashType scriptCode ret) (hlen : scriptCode.length ≤ 10000) :
    Implies (evalScript (testRules crypto txTo nIn) ret.reverse scriptCode)
      (evalScript (blockRules crypto txTo nIn) ret.reverse scriptCode) := by
  cases h with
  | pubkey hreads hsize hsig =>
    rw [List.reverse_singleton, evalScript_pubkey testRules_plain hreads hsize hlen (by decide),
      evalScript_pubkey blockRules_plain hreads hsize hlen (by decide)]
    exact (blockCheckSig_of_test (hsig.lowDER hstore)).bind fun _ => .refl _
  | pubkeyhash hreads hsize hsig =>
    rw [List.reverse_cons, List.reverse_singleton, List.singleton_append,
      evalScript_pubkeyhash testRules_plain hreads hsize hlen (by decide),
      evalScript_pubkeyhash blockRules_plain hreads hsize hlen (by decide)]
    split
    · next hhash =>
      rw [testRules_crypto] at hhash
      rw [blockRules_crypto, if_pos hhash]
      exact (blockCheckSig_of_test (hsig.lowDER hstore)).bind fun _ => .refl _
    · exact implies_error
  | @multisig keys signers sigs hreads hkeys hpos hle hle' hsub hsigs =>
    have hlow : ∀ vchSig ∈ sigs.reverse, isLowDERSignature crypto vchSig = true := fun vchSig hmem =>
      forall_of_forall₂ (fun _ _ hsig => hsig.lowDER hstore) hsigs vchSig (List.mem_reverse.mp hmem)
    rw [← List.length_reverse] at hreads hpos hle
    rw [List.reverse_cons, evalScript_multisig testRules_plain hreads hkeys hpos hle hle' hlen (by decide),
      evalScript_multisig blockRules_plain hreads hkeys hpos hle hle' hlen (by decide)]
    refine (matchSigs_implies _ _ fun vchSig hmem vchPubKey => ?_).bind fun _ => .refl _
    exact blockCheckSig_of_test (hlow vchSig hmem)

/-- What the test of a pushed `scriptSig` has seen. -/
theorem test_ok {values : List Valtype}
    (h : verifyScriptChecker crypto (pushAll values) fromPubKey standardScriptVerifyFlags
        (SignatureChecker.checkSig crypto txTo nIn) = true) :
    (pushAll values).length ≤ 10000 ∧ (∀ vch ∈ values, vch.length ≤ 520) ∧ values.length ≤ 1000 ∧
      fromPubKey.length ≤ 10000 ∧
      ∃ stack, evalScript (testRules crypto txTo nIn) values.reverse fromPubKey = .ok stack ∧
        checkTop stack = .ok () := by
  have hpush : standardScriptVerifyFlags.testBit SCRIPT_VERIFY_SIGPUSHONLY = false := by decide
  have hp2sh : standardScriptVerifyFlags.testBit SCRIPT_VERIFY_P2SH = false := by decide
  unfold verifyScriptChecker at h
  cases hrun : verifyCheckerRun (checkerRules crypto (SignatureChecker.checkSig crypto txTo nIn)
      standardScriptVerifyFlags) standardScriptVerifyFlags (pushAll values) fromPubKey with
  | error e =>
    rw [hrun] at h
    cases h
  | ok u =>
    rw [verifyCheckerRun, hpush, hp2sh] at hrun
    obtain ⟨-, -, hrun⟩ := bind_ok hrun
    obtain ⟨stack1, heval1, hrun⟩ := bind_ok hrun
    obtain ⟨stack2, heval2, hrun⟩ := bind_ok hrun
    obtain ⟨u', htop, -⟩ := bind_ok hrun
    have hlen := evalScript_length heval1
    have hpushed := (evalScript_pushAll (@testRules_plain crypto txTo nIn) hlen).symm.trans heval1
    split at hpushed
    · next hsmall =>
      obtain rfl := Except.ok.inj hpushed
      exact ⟨hlen, hsmall.1, hsmall.2, evalScript_length heval2, stack2, heval2, htop⟩
    · cases hpushed

theorem checkTop_eq {stack : List Valtype} {f : Bool} : checkTop (vchBool f :: stack) = .ok () ↔ f = true := by
  cases f with
  | true => exact ⟨fun _ => rfl, fun _ => rfl⟩
  | false => exact ⟨fun h => (nomatch h), fun h => (nomatch h)⟩

/-- A block runs the script it signs on what is pushed. -/
theorem verifyScript_pushAll {values : List Valtype} (hlen : (pushAll values).length ≤ 10000)
    (hsmall : (∀ vch ∈ values, vch.length ≤ 520) ∧ values.length ≤ 1000) :
    verifyScript crypto (pushAll values) fromPubKey txTo nIn mandatoryScriptVerifyFlags 0 = (do
      let stack ← evalScript (blockRules crypto txTo nIn) values.reverse fromPubKey
      checkTop stack
      if fromPubKey.isPayToScriptHash then
        evalP2SH (blockRules crypto txTo nIn) (pushAll values) values.reverse
      else return ()).isOk := by
  rw [verifyScript, verifyScriptRun]
  rw [show evalScript (evalRules crypto txTo nIn mandatoryScriptVerifyFlags 0) [] (pushAll values) =
    .ok values.reverse from (evalScript_pushAll blockRules_plain hlen).trans (if_pos hsmall)]
  rfl

/-- **Without a script hash** the test is enough. -/
theorem verifyScript_of_checker (hstore : keystore.Sound crypto) (hp2sh : scriptCode.isPayToScriptHash = false)
    (h : Signed crypto keystore txTo nIn nHashType scriptCode ret)
    (htest : verifyScriptChecker crypto (pushAll ret) scriptCode standardScriptVerifyFlags
      (SignatureChecker.checkSig crypto txTo nIn) = true) :
    verifyScript crypto (pushAll ret) scriptCode txTo nIn mandatoryScriptVerifyFlags 0 = true := by
  obtain ⟨hlen, hsmall, hcount, hlen', stack, heval, htop⟩ := test_ok htest
  rw [verifyScript_pushAll hlen ⟨hsmall, hcount⟩, h.implies hstore hlen' stack heval, hp2sh]
  simp only [bind, Except.bind, htop]
  rfl

/-! ### Behind a script hash -/

/-- The low byte of the hash type, which a block finds in the signature, is defined and stands for the same
hash. -/
def HashTypeAccepted (crypto : ScriptCrypto) (txTo : CTransaction) (nIn : Nat) (nHashType : Int)
    (scriptCode : CScript) : Prop :=
  (1 ≤ nHashType % 0x80 ∧ nHashType % 0x80 ≤ 3) ∧
  signatureHash crypto scriptCode txTo nIn (nHashType % 0x100) = signatureHash crypto scriptCode txTo nIn nHashType

/-- The public key stands in the script, or belongs to a key of the store. -/
def KnownKey (keystore : CKeyStore) (script : CScript) (vchPubKey : Valtype) : Prop :=
  (∃ instrs op, Reads script instrs ∧ (op, vchPubKey) ∈ instrs) ∨
    ∃ id key, keystore.getKey id = some key ∧ key.pubKey = vchPubKey

/-- What is assumed of the signatures for redemption scripts.  There is no way for a signature to sign itself,
unless it is one of the constant hash; and a signature of one hash is not one of another, by a key that is known.
For the hash types of one byte the second has nothing to say. -/
structure SignaturesApart (crypto : ScriptCrypto) (keystore : CKeyStore) (txTo : CTransaction) (nIn : Nat)
    (nHashType : Int) : Prop where
  script : ∀ h160 script id vchSig, keystore.getCScript h160 = some script →
    SignedBy crypto keystore txTo nIn nHashType script id vchSig →
    ¬ (nHashType % 0x20 = 3 ∧ txTo.vout.length ≤ nIn) → script.findAndDelete (pushVch vchSig) = script
  hash : ∀ h160 script id key test der vchPubKey, keystore.getCScript h160 = some script →
    KnownKey keystore script vchPubKey → keystore.getKey id = some key →
    key.sign (signatureHash crypto script txTo nIn nHashType) test = some der →
    crypto.verify vchPubKey (signatureHash crypto script txTo nIn (nHashType % 0x100)) der = true →
    signatureHash crypto script txTo nIn (nHashType % 0x100) = signatureHash crypto script txTo nIn nHashType

theorem toNat_hashTypeByte (nHashType : Int) : ((hashTypeByte nHashType).toNat : Int) = nHashType % 0x100 := by
  rw [hashTypeByte, UInt8.toNat_ofNat']
  omega

theorem isDefinedHashtype_iff (der : Valtype) :
    isDefinedHashtypeSignature (der ++ [hashTypeByte nHashType]) = true ↔
      1 ≤ nHashType % 0x80 ∧ nHashType % 0x80 ≤ 3 := by
  have hbyte := toNat_hashTypeByte nHashType
  rw [isDefinedHashtypeSignature, List.getLast?_concat]
  simp only [Bool.and_eq_true, decide_eq_true_eq]
  omega

theorem pubKeyOfVch_of_encoding {vch : Valtype} (h : checkPubKeyEncoding vch = true) :
    pubKeyOfVch vch = vch ∧ vch ≠ [] := by
  cases vch with
  | nil => cases h
  | cons header vch =>
    refine ⟨?_, List.cons_ne_nil _ _⟩
    have hlen : pubKeyLen header = (header :: vch).length ∧ pubKeyLen header ≠ 0 := by
      unfold checkPubKeyEncoding at h
      dsimp only [List.headD_cons] at h
      split_ifs at h with hshort h4 h23
      · subst h4
        exact ⟨(of_decide_eq_true h).symm, by decide⟩
      · rw [of_decide_eq_true h]
        rcases h23 with rfl | rfl <;> exact ⟨rfl, by decide⟩
    unfold pubKeyOfVch
    exact if_pos ⟨hlen.2, hlen.1⟩

theorem pubKeyOfVch_eq {vch : Valtype} (h : pubKeyOfVch vch ≠ []) : pubKeyOfVch vch = vch := by
  unfold pubKeyOfVch at h ⊢
  dsimp only at h ⊢
  split_ifs at h ⊢
  · rfl
  · exact absurd rfl h

theorem checker_eq {der : Valtype} (h : checkPubKeyEncoding vchPubKey = true) :
    SignatureChecker.checkSig crypto txTo nIn (der ++ [hashTypeByte nHashType]) vchPubKey c =
      crypto.verify vchPubKey (signatureHash crypto c txTo nIn (nHashType % 0x100)) der := by
  obtain ⟨hvch, hne⟩ := pubKeyOfVch_of_encoding h
  have hnonempty : vchPubKey.isEmpty = false := by
    cases vchPubKey with
    | nil => exact absurd rfl hne
    | cons _ _ => rfl
  unfold SignatureChecker.checkSig
  simp only [hvch, hnonempty, Bool.false_eq_true, if_false, List.getLast?_concat, List.dropLast_concat,
    toNat_hashTypeByte]

theorem blockCheckSig_iff {der : Valtype} :
    blockCheckSig crypto txTo nIn (der ++ [hashTypeByte nHashType]) vchPubKey c = true ↔
      isLowDERSignature crypto (der ++ [hashTypeByte nHashType]) = true ∧
      (1 ≤ nHashType % 0x80 ∧ nHashType % 0x80 ≤ 3) ∧ checkPubKeyEncoding vchPubKey = true ∧
      crypto.verify vchPubKey (signatureHash crypto c txTo nIn (nHashType % 0x100)) der = true := by
  rw [blockCheckSig, checkSignatureEncoding, Bool.and_eq_true, Bool.and_eq_true, Bool.and_eq_true,
    isDefinedHashtype_iff]
  constructor
  · rintro ⟨⟨⟨hlow, hdefined⟩, hpubkey⟩, hcheck⟩
    rw [checker_eq hpubkey] at hcheck
    exact ⟨hlow, hdefined, hpubkey, hcheck⟩
  · rintro ⟨hlow, hdefined, hpubkey, hverify⟩
    rw [checker_eq hpubkey]
    exact ⟨⟨⟨hlow, hdefined⟩, hpubkey⟩, hverify⟩

section Redeem

variable {h160 script : CScript}

theorem signatureHash_single (hsingle : nHashType % 0x20 = 3 ∧ txTo.vout.length ≤ nIn) (c : CScript) :
    signatureHash crypto c txTo nIn nHashType = 1 := by
  unfold signatureHash
  dsimp only
  split_ifs <;> first | rfl | omega

/-- The signatures that are dropped from the script code leave its hash as it is. -/
theorem signatureHash_withoutSigs (hapart : SignaturesApart crypto keystore txTo nIn nHashType)
    (hscript : keystore.getCScript h160 = some script) (sigs : List Valtype)
    (hsigs : ∀ vchSig ∈ sigs, ∃ id, SignedBy crypto keystore txTo nIn nHashType script id vchSig) :
    signatureHash crypto (withoutSigs sigs script) txTo nIn (nHashType % 0x100) =
      signatureHash crypto script txTo nIn (nHashType % 0x100) := by
  by_cases hsingle : nHashType % 0x20 = 3 ∧ txTo.vout.length ≤ nIn
  · have hbyte : nHashType % 0x100 % 0x20 = 3 ∧ txTo.vout.length ≤ nIn := ⟨by omega, hsingle.2⟩
    rw [signatureHash_single hbyte, signatureHash_single hbyte]
  · suffices hsame : withoutSigs sigs script = script by rw [hsame]
    induction sigs with
    | nil => rfl
    | cons vchSig sigs ih =>
      obtain ⟨⟨id, hsig⟩, hsigs⟩ := List.forall_mem_cons.mp hsigs
      rw [withoutSigs, List.foldl_cons, hapart.script h160 script id vchSig hscript hsig hsingle]
      exact ih hsigs

/-- With an accepted hash type the signature of a key passes the check in a block. -/
theorem SignedBy.check_of_accepted (hstore : keystore.Sound crypto)
    (hsig : SignedBy crypto keystore txTo nIn nHashType script id vchSig)
    (hpubkey : ∀ key, keystore.getKey id = some key → key.pubKey = vchPubKey)
    (hcode : signatureHash crypto c txTo nIn (nHashType % 0x100) =
        signatureHash crypto script txTo nIn (nHashType % 0x100))
    (haccepted : HashTypeAccepted crypto txTo nIn nHashType script) :
    blockCheckSig crypto txTo nIn vchSig vchPubKey c = true := by
  obtain ⟨key, test, der, hkey, hsign, rfl⟩ := hsig
  have hsound := hstore.key _ _ hkey
  rw [← hpubkey key hkey]
  refine blockCheckSig_iff.mpr ⟨hsound.lowDER _ _ _ _ hsign, haccepted.1, hsound.pubKey, ?_⟩
  rw [hcode, haccepted.2]
  exact hsound.verify _ _ _ hsign

/-- A signature that passes the check in a block has an accepted hash type. -/
theorem SignedBy.accepted_of_check (hapart : SignaturesApart crypto keystore txTo nIn nHashType)
    (hscript : keystore.getCScript h160 = some script)
    (hsig : SignedBy crypto keystore txTo nIn nHashType script id vchSig)
    (hcode : signatureHash crypto c txTo nIn (nHashType % 0x100) =
        signatureHash crypto script txTo nIn (nHashType % 0x100))
    (hknown : KnownKey keystore script vchPubKey)
    (hcheck : blockCheckSig crypto txTo nIn vchSig vchPubKey c = true) :
    HashTypeAccepted crypto txTo nIn nHashType script := by
  obtain ⟨key, test, der, hkey, hsign, rfl⟩ := hsig
  obtain ⟨-, hdefined, -, hverify⟩ := blockCheckSig_iff.mp hcheck
  rw [hcode] at hverify
  exact ⟨hdefined, hapart.hash _ _ _ _ _ _ _ hscript hknown hkey hsign hverify⟩

/-- The key under the id of a public key is that of the public key as it is in the script. -/
theorem pubKey_of_id (hstore : keystore.Sound crypto) {key : CKey}
    (hkey : keystore.getKey (pubKeyID crypto vchPubKey) = some key) : key.pubKey = vchPubKey := by
  have heq := hstore.pubKey _ _ hkey
  have hne := (pubKeyOfVch_of_encoding (hstore.key _ _ hkey).pubKey).2
  rw [heq] at hne ⊢
  exact pubKeyOfVch_eq hne

/-- A signed redemption script leaves true in a block if and only if the hash type is accepted. -/
theorem Signed.block_iff (hstore : keystore.Sound crypto)
    (hapart : SignaturesApart crypto keystore txTo nIn nHashType)
    (hscript : keystore.getCScript h160 = some script)
    (h : Signed crypto keystore txTo nIn nHashType script ret) (hlen : script.length ≤ 10000) :
    ∃ f, evalScript (blockRules crypto txTo nIn) ret.reverse script = .ok [vchBool f] ∧
      (f = true ↔ HashTypeAccepted crypto txTo nIn nHashType script) := by
  have hdrop : ∀ {id vchSig : Valtype}, SignedBy crypto keystore txTo nIn nHashType script id vchSig →
      signatureHash crypto (script.findAndDelete (pushVch vchSig)) txTo nIn (nHashType % 0x100) =
        signatureHash crypto script txTo nIn (nHashType % 0x100) := fun hsig =>
    signatureHash_withoutSigs hapart hscript [_] (List.forall_mem_singleton.mpr ⟨_, hsig⟩)
  cases h with
  | pubkey hreads hsize hsig =>
    rw [List.reverse_singleton, evalScript_pubkey blockRules_plain hreads hsize hlen (by decide),
      blockRules_checkSig]
    have hknown : KnownKey keystore script _ := .inl ⟨_, _, hreads, List.mem_cons_self⟩
    refine ⟨_, rfl, fun hcheck => hsig.accepted_of_check hapart hscript (hdrop hsig) hknown hcheck, fun hacc => ?_⟩
    exact hsig.check_of_accepted hstore (fun key hkey => pubKey_of_id hstore hkey) (hdrop hsig) hacc
  | @pubkeyhash op keyID vchSig hreads hsize hsig =>
    obtain ⟨key, -, -, hkey, -, -⟩ := id hsig
    have hpubkey : (keystore.getPubKey keyID).getD [] = key.pubKey := by
      rw [hstore.getPubKey _ _ hkey, Option.getD_some]
    rw [List.reverse_cons, List.reverse_singleton, List.singleton_append,
      evalScript_pubkeyhash blockRules_plain hreads hsize hlen (by decide), blockRules_checkSig, hpubkey,
      blockRules_crypto, if_pos (hstore.id _ _ hkey)]
    have hknown : KnownKey keystore script _ := .inr ⟨_, _, hkey, rfl⟩
    refine ⟨_, rfl, fun hcheck => hsig.accepted_of_check hapart hscript (hdrop hsig) hknown hcheck, fun hacc => ?_⟩
    refine hsig.check_of_accepted hstore (fun key' hkey' => ?_) (hdrop hsig) hacc
    rw [hkey] at hkey'
    rw [Option.some.inj hkey']
  | @multisig keys signers sigs hreads hkeys hpos hle hle' hsub hsigs =>
    have hsigned : ∀ vchSig ∈ sigs, ∃ id, SignedBy crypto keystore txTo nIn nHashType script id vchSig :=
      forall_of_forall₂ (fun _ _ hsig => ⟨_, hsig⟩) hsigs
    have hsigned : ∀ vchSig ∈ sigs.reverse, ∃ id, SignedBy crypto keystore txTo nIn nHashType script id vchSig :=
      fun vchSig hmem => hsigned vchSig (List.mem_reverse.mp hmem)
    have hcode := signatureHash_withoutSigs hapart hscript sigs.reverse hsigned
    rw [← List.length_reverse] at hreads hpos hle
    rw [List.reverse_cons, evalScript_multisig blockRules_plain hreads hkeys hpos hle hle' hlen (by decide)]
    by_cases hacc : HashTypeAccepted crypto txTo nIn nHashType script
    · have hmatch := matchSigs_true (blockRules_checkSig · · (withoutSigs sigs.reverse script))
        (keys.map Prod.snd).reverse sigs.reverse signers.reverse hsub.reverse
        (List.forall₂_reverse_iff.mpr (hsigs.imp fun vchPubKey vchSig hsig =>
          hsig.check_of_accepted hstore (fun key hkey => pubKey_of_id hstore hkey) hcode hacc))
      rw [hmatch]
      exact ⟨true, rfl, fun _ => hacc, fun _ => rfl⟩
    · cases hrev : sigs.reverse with
      | nil =>
        rw [hrev] at hpos
        cases hpos
      | cons vchSig sigs' =>
        obtain ⟨id, hsig⟩ := hsigned vchSig (hrev ▸ List.mem_cons_self)
        rw [hrev] at hcode
        rw [matchSigs_false (blockRules_checkSig · · (withoutSigs (vchSig :: sigs') script)) _ _
          fun vchPubKey hmem => Bool.eq_false_iff.mpr fun hcheck => ?_]
        · exact ⟨false, rfl, fun h => (nomatch h), fun h => absurd h hacc⟩
        · obtain ⟨⟨op, vch⟩, hkey, rfl⟩ := List.mem_map.mp (List.mem_reverse.mp hmem)
          have hknown : KnownKey keystore script vch :=
            .inl ⟨_, _, hreads, List.mem_cons_of_mem _ (List.mem_append_left _ hkey)⟩
          exact hacc (hsig.accepted_of_check hapart hscript hcode hknown hcheck)

theorem Signed.length_lt (h : Signed crypto keystore txTo nIn nHashType script ret) : ret.length < 900 := by
  cases h with
  | pubkey =>
    rw [List.length_singleton]
    omega
  | pubkeyhash =>
    rw [List.length_cons, List.length_singleton]
    omega
  | multisig _ _ _ hle hle' =>
    rw [List.length_cons]
    omega

theorem length_scripthash (hp2sh : fromPubKey.isPayToScriptHash = true) :
    ((fromPubKey.drop 2).take 20).length = 20 := by
  simp only [isPayToScriptHash, Bool.and_eq_true, decide_eq_true_eq] at hp2sh
  rw [List.length_take, List.length_drop]
  omega

/-- A block runs the redemption script on what is pushed before it. -/
theorem verifyScript_p2sh_pushAll {f : Bool} (hp2sh : fromPubKey.isPayToScriptHash = true)
    (hlen : (pushAll (ret ++ [script])).length ≤ 10000)
    (hsmall : (∀ vch ∈ ret ++ [script], vch.length ≤ 520) ∧ (ret ++ [script]).length ≤ 1000)
    (hret : ret.length < 900) (hhash : crypto.hash .hash160 script = (fromPubKey.drop 2).take 20)
    (hrun : evalScript (blockRules crypto txTo nIn) ret.reverse script = .ok [vchBool f]) :
    verifyScript crypto (pushAll (ret ++ [script])) fromPubKey txTo nIn mandatoryScriptVerifyFlags 0 = f := by
  have hlen' : fromPubKey.length ≤ 10000 := by
    simp only [isPayToScriptHash, Bool.and_eq_true, decide_eq_true_eq] at hp2sh
    omega
  have hret' : ret.reverse.length < 900 := by rwa [List.length_reverse]
  rw [verifyScript_pushAll hlen hsmall, hp2sh, List.reverse_append, List.reverse_singleton, List.singleton_append,
    evalScript_scripthash blockRules_plain (reads_scripthash hp2sh) (length_scripthash hp2sh) hlen' hret',
    blockRules_crypto, hhash, decide_eq_true rfl, evalP2SH, isPushOnly_pushAll hlen]
  simp only [bind, Except.bind, checkTop_eq.mpr rfl, if_true, Bool.not_true, failIf_false, stacktop_one,
    popstack_cons, hrun]
  cases f with
  | true => rfl
  | false => rfl

/-- **Behind a script hash** what passes the test is accepted in a block if and only if the hash type is. -/
theorem verifyScript_p2sh_iff (hstore : keystore.Sound crypto)
    (hapart : SignaturesApart crypto keystore txTo nIn nHashType)
    (hp2sh : fromPubKey.isPayToScriptHash = true) (hscript : keystore.getCScript h160 = some script)
    (h : Signed crypto keystore txTo nIn nHashType script ret)
    (htest : verifyScriptChecker crypto (pushAll (ret ++ [script]))
        fromPubKey standardScriptVerifyFlags (SignatureChecker.checkSig crypto txTo nIn) = true) :
    verifyScript crypto (pushAll (ret ++ [script])) fromPubKey txTo nIn mandatoryScriptVerifyFlags 0 = true ↔
      HashTypeAccepted crypto txTo nIn nHashType script := by
  obtain ⟨hlen, hsmall, hcount, hlen', stack, heval, htop⟩ := test_ok htest
  have hret : ret.reverse.length < 900 := by
    rw [List.length_reverse]
    exact h.length_lt
  obtain ⟨f, hf, hiff⟩ := h.block_iff hstore hapart hscript
    ((hsmall script (List.mem_append_right _ (List.mem_singleton_self _))).trans (by norm_num))
  rw [List.reverse_append, List.reverse_singleton, List.singleton_append, evalScript_scripthash testRules_plain
    (reads_scripthash hp2sh) (length_scripthash hp2sh) hlen' hret, testRules_crypto] at heval
  rw [← Except.ok.inj heval, checkTop_eq, decide_eq_true_eq] at htop
  rw [verifyScript_p2sh_pushAll hp2sh hlen ⟨hsmall, hcount⟩ h.length_lt htop hf, hiff]

end Redeem

/-! ### The two functions -/

/-- An input that is signed and tested. -/
inductive SignedInput (crypto : ScriptCrypto) (keystore : CKeyStore) (txTo : CTransaction) (nIn : Nat)
    (nHashType : Int) (fromPubKey : CScript) : CScript → Prop
  | direct {ret : List Valtype} : fromPubKey.isPayToScriptHash = false →
      Signed crypto keystore txTo nIn nHashType fromPubKey ret →
      verifyScriptChecker crypto (pushAll ret) fromPubKey standardScriptVerifyFlags
        (SignatureChecker.checkSig crypto txTo nIn) = true →
      SignedInput crypto keystore txTo nIn nHashType fromPubKey (pushAll ret)
  | redeem {script : CScript} {ret : List Valtype} : fromPubKey.isPayToScriptHash = true →
      keystore.getCScript ((fromPubKey.drop 2).take 20) = some script →
      Signed crypto keystore txTo nIn nHashType script ret →
      verifyScriptChecker crypto (pushAll (ret ++ [script])) fromPubKey standardScriptVerifyFlags
        (SignatureChecker.checkSig crypto txTo nIn) = true →
      SignedInput crypto keystore txTo nIn nHashType fromPubKey (pushAll (ret ++ [script]))

theorem SignedInput.verifyScript_iff (hstore : keystore.Sound crypto)
    (hapart : SignaturesApart crypto keystore txTo nIn nHashType)
    (h : SignedInput crypto keystore txTo nIn nHashType fromPubKey scriptSig) :
    verifyScript crypto scriptSig fromPubKey txTo nIn mandatoryScriptVerifyFlags 0 = true ↔
      (fromPubKey.isPayToScriptHash = true → ∀ script,
        keystore.getCScript ((fromPubKey.drop 2).take 20) = some script →
        HashTypeAccepted crypto txTo nIn nHashType script) := by
  cases h with
  | direct hp2sh hsigned htest =>
    refine ⟨fun _ h => ?_, fun _ => verifyScript_of_checker hstore hp2sh hsigned htest⟩
    rw [hp2sh] at h
    cases h
  | redeem hp2sh hscript hsigned htest =>
    rw [verifyScript_p2sh_iff hstore hapart hp2sh hscript hsigned htest]
    refine ⟨fun hacc _ script' hscript' => ?_, fun h => h hp2sh _ hscript⟩
    rw [hscript] at hscript'
    rw [← Option.some.inj hscript']
    exact hacc

/-- Both creators append the hash type to a signature with the key for the id. -/
theorem signedBy_of_sign {test : Nat}
    (h : ((keystore.getKey id).bind fun key => (key.sign (signatureHash crypto scriptCode txTo nIn nHashType)
        test).map fun der => der ++ [hashTypeByte nHashType]) = some vchSig) :
    SignedBy crypto keystore txTo nIn nHashType scriptCode id vchSig := by
  obtain ⟨key, hkey, h⟩ := Option.bind_eq_some_iff.mp h
  obtain ⟨der, hder, rfl⟩ := Option.map_eq_some_iff.mp h
  exact ⟨key, test, der, hkey, hder, rfl⟩

theorem createSig_signedBy (id vchSig : Valtype) (h : createSig crypto keystore txTo nIn nHashType id scriptCode =
    some vchSig) : SignedBy crypto keystore txTo nIn nHashType scriptCode id vchSig := signedBy_of_sign h

theorem sign1Creator_signedBy (id vchSig : Valtype) (h : sign1Creator keystore
    (signatureHash crypto scriptCode txTo nIn nHashType) nHashType id scriptCode = some vchSig) :
    SignedBy crypto keystore txTo nIn nHashType scriptCode id vchSig := signedBy_of_sign h

theorem produceSignature_spec
    (h : produceSignature crypto keystore fromPubKey txTo nIn nHashType = (true, scriptSig)) :
    SignedInput crypto keystore txTo nIn nHashType fromPubKey scriptSig := by
  unfold produceSignature at h
  dsimp only at h
  rcases hstep : signStep crypto keystore (createSig crypto keystore txTo nIn nHashType) fromPubKey with
    ⟨solved, result, whichType⟩
  rw [hstep] at h
  dsimp only at h
  cases solved with
  | false => cases h
  | true =>
    rcases signStep_spec createSig_signedBy hstep with ⟨rfl, hp2sh, script, hscript, rfl⟩
      | ⟨hne, hp2sh, hsigned⟩
    · rw [decide_eq_true rfl, Bool.and_self, if_pos rfl] at h
      rcases hstep2 : signStep crypto keystore (createSig crypto keystore txTo nIn nHashType)
        ([script].headD []) with ⟨solved2, result2, whichType2⟩
      rw [hstep2] at h
      obtain ⟨hboth, rfl⟩ := Prod.mk.inj h
      rw [Bool.and_eq_true, Bool.and_eq_true, decide_eq_true_eq] at hboth
      obtain ⟨⟨rfl, hne⟩, htest⟩ := hboth
      rcases signStep_spec createSig_signedBy hstep2 with ⟨heq, -⟩ | ⟨-, -, hsigned⟩
      · exact absurd heq hne
      · exact .redeem hp2sh hscript hsigned htest
    · rw [Bool.true_and, if_neg (by rw [decide_eq_true_eq]; exact hne)] at h
      obtain ⟨htest, rfl⟩ := Prod.mk.inj h
      exact .direct hp2sh hsigned htest

/-- The same for `Solver` with a key store. -/
theorem solverSign_spec {whichType : Txnouttype}
    (h : solverSign crypto keystore scriptCode (signatureHash crypto scriptCode txTo nIn nHashType)
        nHashType = (true, scriptSig, whichType)) :
    (whichType = .scripthash ∧ scriptCode.isPayToScriptHash = true ∧
      keystore.getCScript ((scriptCode.drop 2).take 20) = some scriptSig) ∨
    (whichType ≠ .scripthash ∧ scriptCode.isPayToScriptHash = false ∧
      ∃ ret, Signed crypto keystore txTo nIn nHashType scriptCode ret ∧ scriptSig = pushAll ret) := by
  rw [solverSign_eq] at h
  rcases hstep : signStep crypto keystore (sign1Creator keystore
    (signatureHash crypto scriptCode txTo nIn nHashType) nHashType) scriptCode with ⟨solved, ret, whichType'⟩
  rw [hstep] at h
  obtain ⟨rfl, h⟩ := Prod.mk.inj h
  obtain ⟨hscriptSig, rfl⟩ := Prod.mk.inj h
  dsimp only at hscriptSig
  rcases signStep_spec sign1Creator_signedBy hstep with ⟨rfl, hp2sh, script, hscript, rfl⟩
    | ⟨hne, hp2sh, hsigned⟩
  · rw [if_pos rfl, List.headD_cons] at hscriptSig
    rw [← hscriptSig]
    exact .inl ⟨rfl, hp2sh, hscript⟩
  · rw [if_neg hne] at hscriptSig
    exact .inr ⟨hne, hp2sh, ret, hsigned, hscriptSig.symm⟩

theorem scriptSig_of_setScriptSig {txTo : CTransaction} (txin : CTxIn)
    (h : (txTo.setScriptSig nIn scriptSig).vin[nIn]? = some txin) : txin.scriptSig = scriptSig := by
  rw [CTransaction.setScriptSig, List.getElem?_mapIdx, Option.map_eq_some_iff] at h
  obtain ⟨txin', -, rfl⟩ := h
  rw [if_pos rfl]

/-- The transaction that is signed is the given one with another script in the input. -/
theorem signSignature_spec {txTo' : CTransaction}
    (h : signSignature crypto keystore fromPubKey txTo nIn nHashType = (true, txTo')) :
    ∃ scriptSig, SignedInput crypto keystore txTo nIn nHashType fromPubKey scriptSig ∧
      (∀ txin, txTo'.vin[nIn]? = some txin → txin.scriptSig = scriptSig) ∧
      blockRules crypto txTo' nIn = blockRules crypto txTo nIn := by
  unfold signSignature at h
  dsimp only at h
  rcases hstep : solverSign crypto keystore fromPubKey (signatureHash crypto fromPubKey txTo nIn nHashType)
    nHashType with ⟨fSolved, scriptSig, whichType⟩
  rw [hstep] at h
  cases fSolved with
  | false => cases h
  | true =>
    rcases solverSign_spec hstep with ⟨rfl, hp2sh, hscript⟩ | ⟨hne, hp2sh, ret, hsigned, rfl⟩
    · simp only [Bool.not_true, Bool.false_eq_true, if_false, if_true, signatureHash_setScriptSig,
        signatureChecker_setScriptSig] at h
      rcases hstep2 : solverSign crypto keystore scriptSig (signatureHash crypto scriptSig txTo nIn nHashType)
        nHashType with ⟨fSolved2, scriptSig2, subType⟩
      rw [hstep2] at h
      dsimp only at h
      split at h
      · cases h
      · next hok =>
        obtain ⟨htest, rfl⟩ := Prod.mk.inj h
        rw [Bool.not_eq_true', Bool.not_eq_false, Bool.and_eq_true, decide_eq_true_eq] at hok
        obtain ⟨rfl, hne⟩ := hok
        rcases solverSign_spec hstep2 with ⟨heq, -⟩ | ⟨-, -, ret, hsigned, rfl⟩
        · exact absurd heq hne
        · rw [← pushAll_append] at htest ⊢
          refine ⟨_, .redeem hp2sh hscript hsigned htest, scriptSig_of_setScriptSig, ?_⟩
          rw [blockRules_setScriptSig, blockRules_setScriptSig]
    · simp only [Bool.not_true, Bool.false_eq_true, if_false, hne, signatureChecker_setScriptSig] at h
      obtain ⟨htest, rfl⟩ := Prod.mk.inj h
      exact ⟨_, .direct hp2sh hsigned htest, scriptSig_of_setScriptSig, blockRules_setScriptSig _ _⟩

/-- **What the wallet signs** is accepted in a block if and only if the hash type is accepted for the
redemption script, where there is one. -/
theorem verifyScript_iff_of_signSignature (crypto : ScriptCrypto) (keystore : CKeyStore) (txTo : CTransaction)
    (nIn : Nat) (nHashType : Int) (fromPubKey : CScript) (hstore : keystore.Sound crypto)
    (hapart : SignaturesApart crypto keystore txTo nIn nHashType) :
    (∀ txTo' txin, signSignature crypto keystore fromPubKey txTo nIn nHashType = (true, txTo') →
      txTo'.vin[nIn]? = some txin →
      (verifyScript crypto txin.scriptSig fromPubKey txTo' nIn mandatoryScriptVerifyFlags 0 = true ↔
        (fromPubKey.isPayToScriptHash = true → ∀ script,
          keystore.getCScript ((fromPubKey.drop 2).take 20) = some script →
          HashTypeAccepted crypto txTo nIn nHashType script))) ∧
    (∀ scriptSig, produceSignature crypto keystore fromPubKey txTo nIn nHashType = (true, scriptSig) →
      (verifyScript crypto scriptSig fromPubKey txTo nIn mandatoryScriptVerifyFlags 0 = true ↔
        (fromPubKey.isPayToScriptHash = true → ∀ script,
          keystore.getCScript ((fromPubKey.drop 2).take 20) = some script →
          HashTypeAccepted crypto txTo nIn nHashType script))) := by
  refine ⟨fun txTo' txin h htxin => ?_,
    fun scriptSig h => (produceSignature_spec h).verifyScript_iff hstore hapart⟩
  obtain ⟨scriptSig, hinput, hscriptSig, hrules⟩ := signSignature_spec h
  rw [hscriptSig txin htxin, ← hinput.verifyScript_iff hstore hapart]
  unfold verifyScript
  rw [show evalRules crypto txTo' nIn mandatoryScriptVerifyFlags 0 = evalRules crypto txTo nIn
    mandatoryScriptVerifyFlags 0 from hrules]

end Accept

/-! ### A key store with one key -/

def onlyPubKey : Valtype := 2 :: List.replicate 32 7

def onlyDER : Valtype := [0x30, 6, 2, 1, 1, 2, 1, 1]

def onlyCrypto : ScriptCrypto where
  hash op vch := List.replicate op.size (if vch = onlyPubKey then 1 else 0)
  length_hash _ _ := List.length_replicate
  checkLowS _ := true
  verify vchPubKey _ vchSig := vchPubKey = onlyPubKey && vchSig = onlyDER
  hashTx _ nHashType := nHashType.toNat

def onlyKey : CKey where
  pubKey := onlyPubKey
  sign _ _ := some onlyDER

/-- `<onlyPubKey> OP_CHECKSIG`. -/
def redeemScript : CScript := pushVch onlyPubKey ++ [0xac]

def redeemPubKey : CScript := [0xa9, 0x14] ++ List.replicate 20 0 ++ [0x87]

def onlyStore : CKeyStore where
  getKey id := if id = List.replicate 20 1 then some onlyKey else none
  getPubKey id := if id = List.replicate 20 1 then some onlyPubKey else none
  getCScript h160 := if h160 = List.replicate 20 0 then some redeemScript else none

theorem onlyStore_getKey {key : CKey} (h : onlyStore.getKey id = some key) :
    id = List.replicate 20 1 ∧ key = onlyKey := by
  unfold onlyStore at h
  dsimp only at h
  split_ifs at h with hid
  exact ⟨hid, (Option.some.inj h).symm⟩

theorem onlyStore_sound : onlyStore.Sound onlyCrypto where
  key id key h := by
    obtain ⟨-, rfl⟩ := onlyStore_getKey h
    refine ⟨by decide, fun _ _ vchSig b hsign => ?_, fun _ _ vchSig hsign => ?_⟩
    · obtain rfl := Option.some.inj hsign
      rfl
    · obtain rfl := Option.some.inj hsign
      rfl
  id id key h := by
    obtain ⟨rfl, rfl⟩ := onlyStore_getKey h
    decide
  pubKey vch key h := by
    obtain ⟨hid, rfl⟩ := onlyStore_getKey h
    by_contra hne
    have hzero : pubKeyID onlyCrypto vch = List.replicate 20 0 := by
      unfold pubKeyID onlyCrypto
      dsimp only
      rw [if_neg fun heq => hne heq.symm]
      rfl
    rw [hzero] at hid
    exact absurd hid (by decide)
  getPubKey id key h := by
    obtain ⟨rfl, rfl⟩ := onlyStore_getKey h
    rfl

theorem onlyStore_apart (txTo : CTransaction) (nIn : Nat) {nHashType : Int}
    (h : nHashType = 0 ∨ nHashType = 1) : SignaturesApart onlyCrypto onlyStore txTo nIn nHashType where
  script h160 script id vchSig hscript hsig _ := by
    obtain ⟨key, test, der, hkey, hsign, rfl⟩ := hsig
    obtain ⟨-, rfl⟩ := onlyStore_getKey hkey
    obtain rfl := Option.some.inj hsign
    unfold onlyStore at hscript
    dsimp only at hscript
    split_ifs at hscript
    obtain rfl := Option.some.inj hscript
    rcases h with rfl | rfl <;> decide
  hash h160 script id key test der vchPubKey _ _ _ _ _ := by
    rcases h with rfl | rfl <;> rfl

def redeemTx : CTransaction :=
  { nTime := 2, vin := [⟨⟨1001, 0⟩, [], uintMax⟩], vout := [⟨5 * coin, [1], -10⟩] }

theorem signSignature_accepted : ∃ txTo' txin,
    signSignature onlyCrypto onlyStore redeemPubKey redeemTx 0 1 = (true, txTo') ∧ txTo'.vin[0]? = some txin ∧
    verifyScript onlyCrypto txin.scriptSig redeemPubKey txTo' 0 mandatoryScriptVerifyFlags 0 = true := by
  have hsigned : (signSignature onlyCrypto onlyStore redeemPubKey redeemTx 0 1).1 = true := by decide +kernel
  have hvin : (signSignature onlyCrypto onlyStore redeemPubKey redeemTx 0 1).2.vin[0]?.isSome = true := by
    decide +kernel
  rcases hsign : signSignature onlyCrypto onlyStore redeemPubKey redeemTx 0 1 with ⟨fSigned, txTo'⟩
  rw [hsign] at hsigned hvin
  obtain ⟨txin, htxin⟩ := Option.isSome_iff_exists.mp hvin
  obtain rfl : fSigned = true := hsigned
  have hiff := (verifyScript_iff_of_signSignature onlyCrypto onlyStore redeemTx 0 1 redeemPubKey onlyStore_sound
    (onlyStore_apart _ _ (.inr rfl))).1 txTo' txin hsign htxin
  exact ⟨txTo', txin, rfl, htxin, hiff.mpr fun _ script _ => ⟨by decide, rfl⟩⟩

/-- With hash type 0 the wallet signs, but no block accepts the signature. -/
theorem signSignature_undefined_hashtype :
    onlyStore.Sound onlyCrypto ∧ SignaturesApart onlyCrypto onlyStore redeemTx 0 0 ∧
    (signSignature onlyCrypto onlyStore redeemPubKey redeemTx 0 0).1 = true ∧
    (signSignature onlyCrypto onlyStore redeemPubKey redeemTx 0 0).2.vin.head?.map (fun txin =>
      verifyScript onlyCrypto txin.scriptSig redeemPubKey
        (signSignature onlyCrypto onlyStore redeemPubKey redeemTx 0 0).2 0 mandatoryScriptVerifyFlags 0) =
      some false ∧
    (produceSignature onlyCrypto onlyStore redeemPubKey redeemTx 0 0).1 = true ∧
    verifyScript onlyCrypto (produceSignature onlyCrypto onlyStore redeemPubKey redeemTx 0 0).2 redeemPubKey
      redeemTx 0 mandatoryScriptVerifyFlags 0 = false :=
  ⟨onlyStore_sound, onlyStore_apart _ _ (.inl rfl), by decide +kernel, by decide +kernel, by decide +kernel,
    by decide +kernel⟩

end Sphinx
