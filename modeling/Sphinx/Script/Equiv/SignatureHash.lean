import Sphinx.Script.Equiv.Script
import Sphinx.Script.VerifyScript

/-!
# What a signature commits to

* `length_findAndDelete_le`, `inRange_signatureTx`: what is hashed is in the ranges of the types, so its bytes
  determine it;
* `hashedInputs_congr`, `hashedInputs_anyoneCanPay`: what the inputs contribute;
* `signaturePreimage_commits`: the commitments of `SIGHASH_ALL`, and what the other hash types leave open.
-/

namespace Sphinx

open Codec

/-! ### Sizes -/

namespace CScript

theorem length_eraseCopies_le (b : CScript) (fuel : Nat) (pc : CScript) :
    (eraseCopies b fuel pc).length ≤ pc.length := by
  induction fuel generalizing pc with
  | zero => exact Nat.le_refl _
  | succ fuel ih =>
    rw [eraseCopies]
    split
    · exact (ih _).trans (by rw [List.length_drop]; omega)
    · exact Nat.le_refl _

theorem length_getOp2_le (pc : CScript) : (getOp2 pc).pc.length ≤ pc.length := by
  cases pc with
  | nil => exact Nat.le_refl _
  | cons op pc => exact (getOp2_length_lt op pc).le

theorem length_findAndDeleteLoop_le (b : CScript) (fuel : Nat) (pc : CScript) :
    (findAndDeleteLoop b fuel pc).length ≤ pc.length := by
  induction fuel generalizing pc with
  | zero => exact Nat.le_refl _
  | succ fuel ih =>
    have herase := length_eraseCopies_le b pc.length pc
    rw [findAndDeleteLoop]
    split
    · have hrest := ih (getOp2 (eraseCopies b pc.length pc)).pc
      have hop := length_getOp2_le (eraseCopies b pc.length pc)
      rw [List.length_append, List.length_take]
      omega
    · exact herase

theorem length_findAndDelete_le (script b : CScript) : (script.findAndDelete b).length ≤ script.length := by
  unfold findAndDelete
  split
  · exact Nat.le_refl _
  · exact length_findAndDeleteLoop_le b _ script

end CScript

/-! ### The inputs -/

/-- What a signature can say about an input. -/
def CTxIn.signed (txin : CTxIn) : COutPoint × Nat := (txin.prevout, txin.nSequence)

section Inputs

variable {code : CScript} {nIn nIn' : Nat} {nHashType : Int} {vin vin' : List CTxIn}

theorem blankScripts_eq : blankScripts code nIn vin =
    (vin.map CTxIn.signed).mapIdx fun i k => ⟨k.1, if i = nIn then code else [], k.2⟩ := by
  refine List.ext_getElem? fun i => ?_
  rw [blankScripts, List.getElem?_mapIdx, List.getElem?_mapIdx, List.getElem?_map, Option.map_map]
  rfl

theorem hashedInputs_congr (h : vin'.map CTxIn.signed = vin.map CTxIn.signed) :
    hashedInputs code nIn nHashType vin' = hashedInputs code nIn nHashType vin := by
  unfold hashedInputs
  rw [blankScripts_eq, blankScripts_eq, h]

/-- Every input that is hashed is an input of the transaction, with another script or sequence. -/
theorem mem_hashedInputs {txin : CTxIn} (h : txin ∈ hashedInputs code nIn nHashType vin) :
    ∃ txin' ∈ vin, txin.prevout = txin'.prevout ∧ (txin.nSequence = txin'.nSequence ∨ txin.nSequence = 0) ∧
      (txin.scriptSig = code.findAndDelete [UInt8.ofNat 0xab] ∨ txin.scriptSig = []) := by
  have hblank : ∀ txin ∈ blankScripts (code.findAndDelete [UInt8.ofNat 0xab]) nIn vin,
      ∃ txin' ∈ vin, txin.prevout = txin'.prevout ∧ txin.nSequence = txin'.nSequence ∧
        (txin.scriptSig = code.findAndDelete [UInt8.ofNat 0xab] ∨ txin.scriptSig = []) := by
    intro txin hmem
    obtain ⟨i, hi, rfl⟩ := List.mem_mapIdx.mp hmem
    refine ⟨vin[i], List.getElem_mem hi, rfl, rfl, ?_⟩
    by_cases hin : i = nIn
    · exact .inl (if_pos hin)
    · exact .inr (if_neg hin)
  have hvin : ∀ v : List CTxIn, txin ∈ (if nHashType / 0x80 % 2 = 1 then (v.drop nIn).take 1 else v) →
      txin ∈ v := by
    intro v hmem
    split at hmem
    · exact List.mem_of_mem_drop (List.mem_of_mem_take hmem)
    · exact hmem
  have hmem := hvin _ h
  split at hmem
  · obtain ⟨i, hi, rfl⟩ := List.mem_mapIdx.mp hmem
    obtain ⟨txin', hmem', hprev, hseq, hscript⟩ := hblank _ (List.getElem_mem hi)
    refine ⟨txin', hmem', ?_⟩
    by_cases hin : i = nIn
    · rw [if_neg (not_not.mpr hin)]
      exact ⟨hprev, .inl hseq, hscript⟩
    · rw [if_pos hin]
      exact ⟨hprev, .inr rfl, hscript⟩
  · obtain ⟨txin', hmem', hprev, hseq, hscript⟩ := hblank _ hmem
    exact ⟨txin', hmem', hprev, .inl hseq, hscript⟩

theorem length_hashedInputs_le : (hashedInputs code nIn nHashType vin).length ≤ vin.length := by
  unfold hashedInputs blankSequences blankScripts
  dsimp only
  split_ifs <;> simp

theorem take_drop_one {α : Type} (v : List α) (i : Nat) : (v.drop i).take 1 = v[i]?.toList := by
  rw [List.take_one, List.head?_drop]

theorem hashedInputs_anyoneCanPay (h : nHashType / 0x80 % 2 = 1) :
    hashedInputs code nIn nHashType vin = (vin[nIn]?.map fun txin =>
      { txin with scriptSig := code.findAndDelete [UInt8.ofNat 0xab] }).toList := by
  unfold hashedInputs blankSequences blankScripts
  dsimp only
  rw [if_pos h, take_drop_one]
  split_ifs
  · rw [List.getElem?_mapIdx, List.getElem?_mapIdx, Option.map_map]
    congr 2
    funext txin
    simp
  · rw [List.getElem?_mapIdx]
    simp

/-- With `SIGHASH_ALL`, and without `SIGHASH_ANYONECANPAY`, all inputs are hashed with their sequences. -/
theorem map_signed_hashedInputs (hnone : nHashType % 0x20 ≠ 2) (hsingle : nHashType % 0x20 ≠ 3)
    (hany : nHashType / 0x80 % 2 ≠ 1) :
    (hashedInputs code nIn nHashType vin).map CTxIn.signed = vin.map CTxIn.signed := by
  unfold hashedInputs
  rw [if_neg hany, if_neg (not_or.mpr ⟨hnone, hsingle⟩), blankScripts]
  refine List.ext_getElem? fun i => ?_
  rw [List.getElem?_map, List.getElem?_mapIdx, List.getElem?_map, Option.map_map]
  rfl

end Inputs

/-! ### What is hashed is in range -/

section Range

variable {code : CScript} {txTo txTmp : CTransaction} {nIn : Nat} {nHashType : Int}

theorem mem_hashedOutputs {vout vout' : List CTxOut} (h : hashedOutputs nIn nHashType vout = some vout')
    {txout : CTxOut} (hmem : txout ∈ vout') : txout ∈ vout ∨ txout = CTxOut.null := by
  unfold hashedOutputs at h
  by_cases hnone : nHashType % 0x20 = 2
  · rw [if_pos hnone] at h
    obtain rfl := Option.some.inj h
    exact absurd hmem List.not_mem_nil
  rw [if_neg hnone] at h
  by_cases hsingle : nHashType % 0x20 = 3
  · rw [if_pos hsingle] at h
    by_cases hout : vout.length ≤ nIn
    · rw [if_pos hout] at h
      cases h
    · rw [if_neg hout] at h
      obtain rfl := Option.some.inj h
      rcases List.mem_append.mp hmem with hmem | hmem
      · exact .inr (List.eq_of_mem_replicate hmem)
      · exact .inl (List.mem_of_mem_drop (List.mem_of_mem_take hmem))
  · rw [if_neg hsingle] at h
    obtain rfl := Option.some.inj h
    exact .inl hmem

theorem length_hashedOutputs_le {vout vout' : List CTxOut} (h : hashedOutputs nIn nHashType vout = some vout') :
    vout'.length ≤ vout.length := by
  unfold hashedOutputs at h
  split_ifs at h
  · obtain rfl := Option.some.inj h
    exact Nat.zero_le _
  · obtain rfl := Option.some.inj h
    rw [List.length_append, List.length_replicate, List.length_take, List.length_drop]
    omega
  · obtain rfl := Option.some.inj h
    exact Nat.le_refl _

theorem signatureTx_eq_some (h : signatureTx code txTo nIn nHashType = some txTmp) :
    ∃ vout, hashedOutputs nIn nHashType txTo.vout = some vout ∧
      txTmp = { txTo with vin := hashedInputs code nIn nHashType txTo.vin, vout := vout } := by
  unfold signatureTx at h
  split_ifs at h
  obtain ⟨vout, hvout, rfl⟩ := Option.map_eq_some_iff.mp h
  exact ⟨vout, hvout, rfl⟩

theorem inRange_signatureTx (h : signatureTx code txTo nIn nHashType = some txTmp) (hrange : txTo.InRange)
    (hcode : code.length < 256 ^ 8) : txTmp.InRange := by
  obtain ⟨vout, hvout, rfl⟩ := signatureTx_eq_some h
  have hnull : CTxOut.null.Fits := by
    unfold CTxOut.Fits
    decide
  refine ⟨⟨hrange.fits.nVersion, hrange.fits.nTime, fun txin hmem => ?_, fun txout hmem => ?_,
    hrange.fits.nLockTime⟩,
    length_hashedInputs_le.trans_lt hrange.length_vin, (length_hashedOutputs_le hvout).trans_lt hrange.length_vout,
    fun txin hmem => ?_, fun txout hmem => ?_⟩
  · obtain ⟨txin', hmem', hprev, hseq, -⟩ := mem_hashedInputs hmem
    obtain ⟨hhash, hn, hseq'⟩ := hrange.fits.vin txin' hmem'
    refine ⟨by rw [hprev]; exact hhash, by rw [hprev]; exact hn, ?_⟩
    rcases hseq with hseq | hseq
    · rw [hseq]
      exact hseq'
    · rw [hseq]
      decide
  · -- the outputs are those of the transaction and empty ones
    rcases mem_hashedOutputs hvout hmem with hmem | rfl
    · exact hrange.fits.vout txout hmem
    · exact hnull
  · obtain ⟨txin', -, -, -, hscript⟩ := mem_hashedInputs hmem
    rcases hscript with hscript | hscript
    · rw [hscript]
      exact (CScript.length_findAndDelete_le code _).trans_lt hcode
    · rw [hscript]
      decide
  · rcases mem_hashedOutputs hvout hmem with hmem | rfl
    · exact hrange.scriptPubKey txout hmem
    · decide

end Range

/-! ### The commitments -/

/-- The arguments of `SignatureHash` after the script, in the ranges of their types. -/
structure SignatureArgs where
  txTo : CTransaction
  nIn : Nat
  nHashType : Int
  inRange : txTo.InRange
  fits : FitsInt 4 nHashType

section Commitments

variable {scriptCode : CScript}

/-- The bytes determine the edited transaction, `nRounds` apart, and the hash type. -/
theorem signaturePreimage_inj (hcode : scriptCode.length < 256 ^ 8) {a b : SignatureArgs} {bytes : List UInt8}
    (ha : signaturePreimage scriptCode a.txTo a.nIn a.nHashType = some bytes)
    (hb : signaturePreimage scriptCode b.txTo b.nIn b.nHashType = some bytes) :
    ∃ tx tx', signatureTx scriptCode a.txTo a.nIn a.nHashType = some tx ∧
      signatureTx scriptCode b.txTo b.nIn b.nHashType = some tx' ∧ tx.received = tx'.received ∧
      a.nHashType = b.nHashType := by
  obtain ⟨tx, htx, hbytes⟩ := Option.map_eq_some_iff.mp ha
  obtain ⟨tx', htx', hbytes'⟩ := Option.map_eq_some_iff.mp hb
  obtain ⟨hreceived, hrest⟩ := splitsOff_write tx tx' _ _ (inRange_signatureTx htx a.inRange hcode)
    (inRange_signatureTx htx' b.inRange hcode) (hbytes.trans hbytes'.symm)
  have htype := splitsOff_writeInt 4 a.nHashType b.nHashType [] [] a.fits b.fits (by rw [hrest])
  exact ⟨tx, tx', htx, htx', hreceived, htype.1⟩

/-- `SIGHASH_ALL`: neither `SIGHASH_NONE` nor `SIGHASH_SINGLE`. -/
theorem commits_all (hcode : scriptCode.length < 256 ^ 8) {a b : SignatureArgs} {bytes : List UInt8}
    (ha : signaturePreimage scriptCode a.txTo a.nIn a.nHashType = some bytes)
    (hb : signaturePreimage scriptCode b.txTo b.nIn b.nHashType = some bytes)
    (hnone : a.nHashType % 0x20 ≠ 2) (hsingle : a.nHashType % 0x20 ≠ 3) :
    a.nHashType = b.nHashType ∧ a.txTo.nVersion = b.txTo.nVersion ∧ a.txTo.nTime = b.txTo.nTime ∧
      a.txTo.nLockTime = b.txTo.nLockTime ∧
      a.txTo.vout.map CTxOut.received = b.txTo.vout.map CTxOut.received ∧
      (a.nHashType / 0x80 % 2 ≠ 1 → a.txTo.vin.map CTxIn.signed = b.txTo.vin.map CTxIn.signed) := by
  obtain ⟨tx, tx', htx, htx', hreceived, htype⟩ := signaturePreimage_inj hcode ha hb
  obtain ⟨vout, hvout, rfl⟩ := signatureTx_eq_some htx
  obtain ⟨vout', hvout', rfl⟩ := signatureTx_eq_some htx'
  have hall : ∀ (nIn : Nat) (v : List CTxOut), hashedOutputs nIn a.nHashType v = some v := by
    intro nIn v
    unfold hashedOutputs
    rw [if_neg hnone, if_neg hsingle]
  rw [← htype, hall] at hvout'
  rw [hall] at hvout
  obtain rfl := Option.some.inj hvout
  obtain rfl := Option.some.inj hvout'
  simp only [CTransaction.received, CTransaction.mk.injEq] at hreceived
  obtain ⟨hversion, htime, hvin, houts, hlock⟩ := hreceived
  refine ⟨htype, hversion, htime, hlock, houts, fun hany => ?_⟩
  rw [← map_signed_hashedInputs hnone hsingle hany, hvin, ← htype, map_signed_hashedInputs hnone hsingle hany]

theorem signaturePreimage_congr {txTo txTo' : CTransaction} {nIn nIn' : Nat} {nHashType : Int}
    (hvin : hashedInputs scriptCode nIn nHashType txTo.vin = hashedInputs scriptCode nIn' nHashType txTo'.vin)
    (hlength : txTo.vin.length ≤ nIn ↔ txTo'.vin.length ≤ nIn')
    (hvout : hashedOutputs nIn nHashType txTo.vout = hashedOutputs nIn' nHashType txTo'.vout)
    (hrest : txTo.nVersion = txTo'.nVersion ∧ txTo.nTime = txTo'.nTime ∧ txTo.nLockTime = txTo'.nLockTime) :
    signaturePreimage scriptCode txTo nIn nHashType = signaturePreimage scriptCode txTo' nIn' nHashType := by
  unfold signaturePreimage signatureTx
  simp only [hvin, hlength, hvout, hrest]

theorem open_scripts (txTo : CTransaction) (nIn : Nat) (nHashType : Int) (vin' : List CTxIn)
    (h : vin'.map CTxIn.signed = txTo.vin.map CTxIn.signed) :
    signaturePreimage scriptCode { txTo with vin := vin' } nIn nHashType =
      signaturePreimage scriptCode txTo nIn nHashType := by
  have hlength := congrArg List.length h
  rw [List.length_map, List.length_map] at hlength
  exact signaturePreimage_congr (hashedInputs_congr h) (by rw [hlength]) rfl ⟨rfl, rfl, rfl⟩

/-- The other inputs, with `SIGHASH_ANYONECANPAY`. -/
theorem open_otherInputs (txTo : CTransaction) (nIn nIn' : Nat) (nHashType : Int) (vin' : List CTxIn)
    (hany : nHashType / 0x80 % 2 = 1) (hsingle : nHashType % 0x20 = 3 → nIn' = nIn)
    (h : vin'[nIn']?.map CTxIn.signed = txTo.vin[nIn]?.map CTxIn.signed) :
    signaturePreimage scriptCode { txTo with vin := vin' } nIn' nHashType =
      signaturePreimage scriptCode txTo nIn nHashType := by
  -- the two indices are both in range, or both not
  have hlength : vin'.length ≤ nIn' ↔ txTo.vin.length ≤ nIn := by
    rw [← List.getElem?_eq_none_iff, ← List.getElem?_eq_none_iff]
    have hnone := congrArg Option.isNone h
    rw [Option.isNone_map, Option.isNone_map] at hnone
    rw [← Option.isNone_iff_eq_none, hnone, Option.isNone_iff_eq_none]
  refine signaturePreimage_congr ?_ hlength ?_ ⟨rfl, rfl, rfl⟩
  · rw [hashedInputs_anyoneCanPay hany, hashedInputs_anyoneCanPay hany]
    have hedit : ∀ o : Option CTxIn, (o.map fun txin : CTxIn =>
        { txin with scriptSig := scriptCode.findAndDelete [UInt8.ofNat 0xab] }) =
        (o.map CTxIn.signed).map fun k => ⟨k.1, scriptCode.findAndDelete [UInt8.ofNat 0xab], k.2⟩ := by
      intro o
      rw [Option.map_map]
      rfl
    rw [hedit, hedit]
    exact congrArg (fun o : Option (COutPoint × Nat) => (o.map fun k =>
      (⟨k.1, scriptCode.findAndDelete [UInt8.ofNat 0xab], k.2⟩ : CTxIn)).toList) h
  · by_cases hs : nHashType % 0x20 = 3
    · rw [hsingle hs]
    · unfold hashedOutputs
      rw [if_neg hs, if_neg hs]

theorem open_outputs (txTo : CTransaction) (nIn : Nat) (nHashType : Int) (vout' : List CTxOut)
    (hnone : nHashType % 0x20 = 2) :
    signaturePreimage scriptCode { txTo with vout := vout' } nIn nHashType =
      signaturePreimage scriptCode txTo nIn nHashType := by
  refine signaturePreimage_congr rfl .rfl ?_ ⟨rfl, rfl, rfl⟩
  unfold hashedOutputs
  rw [if_pos hnone, if_pos hnone]

/-- The outputs other than `nIn`, with `SIGHASH_SINGLE`. -/
theorem open_otherOutputs (txTo : CTransaction) (nIn : Nat) (nHashType : Int) (vout' : List CTxOut)
    (hsingle : nHashType % 0x20 = 3) (hlt : nIn < txTo.vout.length) (h : vout'[nIn]? = txTo.vout[nIn]?) :
    signaturePreimage scriptCode { txTo with vout := vout' } nIn nHashType =
      signaturePreimage scriptCode txTo nIn nHashType := by
  have hlt' : nIn < vout'.length := by
    rw [List.getElem?_eq_getElem hlt] at h
    exact (List.getElem?_eq_some_iff.mp h).1
  refine signaturePreimage_congr rfl .rfl ?_ ⟨rfl, rfl, rfl⟩
  unfold hashedOutputs
  rw [if_neg (by omega), if_pos hsingle, if_neg (not_le.mpr hlt'), if_neg (by omega), if_pos hsingle,
    if_neg (not_le.mpr hlt), take_drop_one, take_drop_one, h]

end Commitments

/-- **What the hash type commits to.**  The transaction that is written into the preimage is the one whose hash
`SignatureHash` returns. -/
theorem signaturePreimage_commits (scriptCode : CScript) (hcode : scriptCode.length < 256 ^ 8) :
    (∀ (a b : SignatureArgs) (bytes : List UInt8),
      signaturePreimage scriptCode a.txTo a.nIn a.nHashType = some bytes →
      signaturePreimage scriptCode b.txTo b.nIn b.nHashType = some bytes →
      a.nHashType % 0x20 ≠ 2 → a.nHashType % 0x20 ≠ 3 →
      a.nHashType = b.nHashType ∧ a.txTo.nVersion = b.txTo.nVersion ∧ a.txTo.nTime = b.txTo.nTime ∧
        a.txTo.nLockTime = b.txTo.nLockTime ∧
        a.txTo.vout.map CTxOut.received = b.txTo.vout.map CTxOut.received ∧
        (a.nHashType / 0x80 % 2 ≠ 1 → a.txTo.vin.map CTxIn.signed = b.txTo.vin.map CTxIn.signed)) ∧
    ∀ (txTo : CTransaction) (nIn : Nat) (nHashType : Int),
      (∀ vin' : List CTxIn, vin'.map CTxIn.signed = txTo.vin.map CTxIn.signed →
        signaturePreimage scriptCode { txTo with vin := vin' } nIn nHashType =
          signaturePreimage scriptCode txTo nIn nHashType) ∧
      (nHashType / 0x80 % 2 = 1 → ∀ (vin' : List CTxIn) (nIn' : Nat), (nHashType % 0x20 = 3 → nIn' = nIn) →
        vin'[nIn']?.map CTxIn.signed = txTo.vin[nIn]?.map CTxIn.signed →
        signaturePreimage scriptCode { txTo with vin := vin' } nIn' nHashType =
          signaturePreimage scriptCode txTo nIn nHashType) ∧
      (nHashType % 0x20 = 2 → ∀ vout' : List CTxOut,
        signaturePreimage scriptCode { txTo with vout := vout' } nIn nHashType =
          signaturePreimage scriptCode txTo nIn nHashType) ∧
      (nHashType % 0x20 = 3 → nIn < txTo.vout.length → ∀ vout' : List CTxOut, vout'[nIn]? = txTo.vout[nIn]? →
        signaturePreimage scriptCode { txTo with vout := vout' } nIn nHashType =
          signaturePreimage scriptCode txTo nIn nHashType) ∧
      ∀ crypto : ScriptCrypto, signatureHash crypto scriptCode txTo nIn nHashType =
        (signatureTx scriptCode txTo nIn nHashType).elim 1 fun txTmp => crypto.hashTx txTmp nHashType := by
  refine ⟨fun a b bytes ha hb hnone hsingle => commits_all hcode ha hb hnone hsingle,
    fun txTo nIn nHashType => ⟨?_, ?_,
    ?_, ?_, fun crypto => signatureHash_eq crypto scriptCode txTo nIn nHashType⟩⟩
  · exact fun vin' h => open_scripts txTo nIn nHashType vin' h
  · exact fun hany vin' nIn' hsingle h => open_otherInputs txTo nIn nIn' nHashType vin' hany hsingle h
  · exact fun hnone vout' => open_outputs txTo nIn nHashType vout' hnone
  · exact fun hsingle hlt vout' h => open_otherOutputs txTo nIn nHashType vout' hsingle hlt h

def signedTx (fSigned : Bool) : CTransaction where
  nTime := 5
  vin := [{ prevout := ⟨1, 0⟩, scriptSig := if fSigned then [0xab] else [] }, { prevout := ⟨2, 7⟩ }]
  vout := [{ nValue := 10, scriptPubKey := [0x51] }, { nValue := 20, scriptPubKey := [0x52] }]

theorem signedTx_inRange (fSigned : Bool) : (signedTx fSigned).InRange where
  fits := by
    refine ⟨by decide +revert, by decide +revert, ?_, ?_, by decide +revert⟩
    · unfold CTxIn.Fits
      decide +revert
    · unfold CTxOut.Fits
      decide +revert
  length_vin := by decide +revert
  length_vout := by decide +revert
  scriptSig := by decide +revert
  scriptPubKey := by decide +revert

def signedSample (fSigned : Bool) : SignatureArgs where
  txTo := signedTx fSigned
  nIn := 1
  nHashType := 1
  inRange := signedTx_inRange fSigned
  fits := by decide

theorem signaturePreimage_commits_sample :
    (signedTx true).vout.map CTxOut.received = (signedTx false).vout.map CTxOut.received ∧
      signaturePreimage [0xac] { signedTx false with vout := [] } 1 0x82 =
        signaturePreimage [0xac] (signedTx false) 1 0x82 := by
  have h := signaturePreimage_commits [0xac] (by decide)
  have hscripts := (h.2 (signedTx false) 1 1).1 (signedTx true).vin rfl
  obtain ⟨bytes, hbytes⟩ := Option.isSome_iff_exists.mp
    (show (signaturePreimage [0xac] (signedTx false) 1 1).isSome = true by rfl)
  refine ⟨?_, (h.2 (signedTx false) 1 0x82).2.2.1 (by decide) []⟩
  have hall := h.1 (signedSample true) (signedSample false) bytes (hscripts.trans hbytes) hbytes
    (by decide) (by decide)
  exact hall.2.2.2.2.1

end Sphinx
