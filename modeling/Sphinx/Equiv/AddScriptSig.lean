import Sphinx.Equiv.StashedsendPool
import Sphinx.Util.Loop

/-!
# The signatures that a masternode collects

`AddScriptSig` should take a signature that is valid for an unsigned input, and do nothing otherwise.

* `addScriptSig_of_fresh`: what it does with a `scriptSig` that no input has yet.  `SignatureValid` looks for
  an input that has it already, finds none, and checks nothing;
* `collectsValid_iff`: it does what it should exactly if `JudgesRightly`;
* `addScriptSig_forged`: any `scriptSig` is taken for an unsigned input, and put into the final transaction
  over the signature of a signed one.
-/

namespace Sphinx

open CStashedSendEntry (addSig addSigLoop)

/-- The inputs have one outpoint and one sequence number. -/
def SameName (newVin txin : CTxIn) : Prop :=
  txin.prevout = newVin.prevout ∧ txin.nSequence = newVin.nSequence

instance (newVin txin : CTxIn) : Decidable (SameName newVin txin) :=
  inferInstanceAs (Decidable (_ ∧ _))

namespace CStashedsendPool

section

variable (pool : CStashedsendPool) (newVin : CTxIn) (verifyScript : ScriptVerifier)
  -- the `scriptPubKey` of the output that is spent
  (spentScript : COutPoint → CScript)

/-- `newVin` names an input of an entry that is not signed yet. -/
def NamesUnsigned : Prop := ∃ s ∈ pool.inputs, SameName newVin s.toCTxIn ∧ s.fHasSig = false

/-- The first input of an entry that `newVin` names is not signed yet. -/
def NamesUnsignedFirst : Prop :=
  ∃ e ∈ pool.entries, ∃ s, e.sev.find? (fun s => SameName newVin s.toCTxIn) = some s ∧ s.fHasSig = false

/-- The `scriptSig` is valid for an input of the final transaction that `newVin` names. -/
def VerifiesFinal : Prop :=
  ∃ n txin, pool.finalTransaction.vin[n]? = some txin ∧ SameName newVin txin ∧
    verifyScript newVin.scriptSig (spentScript newVin.prevout)
      { pool.finalTransaction with
        vin := pool.finalTransaction.vin.set n { txin with scriptSig := newVin.scriptSig } }
      n signingFlags 0 = true

/-- The `scriptSig` is in an entry already. -/
def KnownSig : Prop := ∃ s ∈ pool.inputs, s.scriptSig = newVin.scriptSig

/-- Just the valid signatures are taken, and nothing changes otherwise. -/
def CollectsValid (ctx : PoolCtx) : Prop :=
  let r := pool.addScriptSig ctx verifyScript newVin
  (r.1 = true ↔ pool.NamesUnsigned newVin ∧ pool.VerifiesFinal newVin verifyScript spentScript) ∧
    (r.1 = false → r.2.finalTransaction = pool.finalTransaction ∧ r.2.entries = pool.entries)

/-- A new `scriptSig` for an unsigned input is valid.  Others are not valid for an unsigned input, and those
that are new are for no input of the final transaction with another `scriptSig`. -/
structure JudgesRightly : Prop where
  taken : ¬pool.KnownSig newVin → pool.NamesUnsignedFirst newVin →
    pool.VerifiesFinal newVin verifyScript spentScript
  refused : pool.KnownSig newVin ∨ ¬pool.NamesUnsignedFirst newVin →
    ¬(pool.NamesUnsigned newVin ∧ pool.VerifiesFinal newVin verifyScript spentScript)
  kept : ¬pool.KnownSig newVin → ¬pool.NamesUnsignedFirst newVin →
    ∀ txin ∈ pool.finalTransaction.vin, SameName newVin txin → txin.scriptSig = newVin.scriptSig

end

variable {pool : CStashedsendPool} {newVin : CTxIn} {verifyScript : ScriptVerifier}
  {spentScript : COutPoint → CScript} {ctx : PoolCtx}

theorem addSigLoop_isSome_iff : ∀ {sev : List CTxDSIn},
    (addSigLoop newVin sev).isSome ↔
      ∃ s, sev.find? (fun s => SameName newVin s.toCTxIn) = some s ∧ s.fHasSig = false := by
  intro sev
  induction sev with
  | nil => simp [addSigLoop]
  | cons s sev ih =>
    unfold addSigLoop
    by_cases h : SameName newVin s.toCTxIn
    · have hfind : (s :: sev).find? (fun s => SameName newVin s.toCTxIn) = some s :=
        List.find?_cons_of_pos (decide_eq_true h)
      rw [if_pos (show _ ∧ _ from h), hfind]
      cases hsig : s.fHasSig <;> simp [hsig]
    · have hfind : (s :: sev).find? (fun s => SameName newVin s.toCTxIn)
          = sev.find? (fun s => SameName newVin s.toCTxIn) :=
        List.find?_cons_of_neg fun hname => h (of_decide_eq_true hname)
      rw [if_neg (show ¬(_ ∧ _) from h), Option.isSome_map, ih, hfind]

theorem addSigToEntries_isSome_iff : (addSigToEntries newVin pool.entries).isSome ↔
    pool.NamesUnsignedFirst newVin := by
  unfold NamesUnsignedFirst
  induction pool.entries with
  | nil => simp [addSigToEntries]
  | cons e entries ih =>
    rw [List.exists_mem_cons_iff, ← ih, ← addSigLoop_isSome_iff]
    rw [addSigToEntries, addSig]
    cases addSigLoop newVin e.sev <;> simp

theorem namesUnsigned_of_first (h : pool.NamesUnsignedFirst newVin) : pool.NamesUnsigned newVin := by
  obtain ⟨e, he, s, hfind, hsig⟩ := h
  have hname := List.find?_some hfind
  exact ⟨s, List.mem_flatMap.mpr ⟨e, he, List.mem_of_find?_eq_some hfind⟩, of_decide_eq_true hname, hsig⟩

theorem signInputs_eq_self_iff : ∀ {vin : List CTxIn}, signInputs newVin vin = vin ↔
    ∀ txin ∈ vin, SameName newVin txin → txin.scriptSig = newVin.scriptSig := by
  intro vin
  unfold signInputs
  induction vin with
  | nil => simp
  | cons txin vin ih =>
    rw [List.map_cons, List.cons.injEq, ih, List.forall_mem_cons]
    refine and_congr_left' ?_
    by_cases h : SameName newVin txin
    · rw [if_pos ⟨h.1.symm, h.2⟩]
      constructor
      · exact fun heq _ => (congrArg CTxIn.scriptSig heq).symm
      · exact fun hsig => by rw [← hsig h]
    · rw [if_neg fun hname => h ⟨hname.1.symm, hname.2⟩]
      exact iff_of_true rfl fun hname => absurd hname h

/-- `SignatureValid` finds no input that has the new `scriptSig`. -/
theorem signatureValid_of_fresh (hfresh : ¬pool.KnownSig newVin) (newSig : CScript) :
    pool.signatureValid ctx verifyScript newSig newVin = true := by
  have hnone := (Loop.findRev?_zipIdx_eq_none (p := fun s : CTxDSIn => s.toCTxIn = newVin)
    (q := fun x => x.1.toCTxIn = newVin) fun _ => rfl).mpr
      fun s hs => decide_eq_false fun h => hfresh ⟨s, hs, h ▸ rfl⟩
  unfold signatureValid
  dsimp only
  split
  next => rfl
  next hfound => cases hfound.symm.trans hnone

theorem addScriptSig_of_known (h : pool.KnownSig newVin) :
    pool.addScriptSig ctx verifyScript newVin = (false, pool) := by
  unfold addScriptSig
  obtain ⟨s, hs, heq⟩ := h
  rw [if_pos (List.any_eq_true.mpr ⟨s, hs, decide_eq_true heq⟩)]

/-- **A new signature.** It is put into the final transaction in any case. -/
theorem addScriptSig_of_fresh (hfresh : ¬pool.KnownSig newVin) :
    let finalTransaction := { pool.finalTransaction with
      vin := signInputs newVin pool.finalTransaction.vin }
    pool.addScriptSig ctx verifyScript newVin =
      ((addSigToEntries newVin pool.entries).isSome,
        { pool with
          finalTransaction := finalTransaction
          entries := (addSigToEntries newVin pool.entries).getD pool.entries }) := by
  have hany : ¬(pool.inputs.any fun s => s.scriptSig = newVin.scriptSig) = true := by
    rw [List.any_eq_true]
    exact fun ⟨s, hs, heq⟩ => hfresh ⟨s, hs, of_decide_eq_true heq⟩
  unfold addScriptSig
  rw [if_neg hany, signatureValid_of_fresh hfresh]
  cases h : addSigToEntries newVin pool.entries <;> simp [h]

/-- **One signature.** Just the valid signatures for unsigned inputs are taken, if and only if a new one
is valid whenever its input is unsigned, and does not meet an input that is signed. -/
theorem collectsValid_iff (verifyScript : ScriptVerifier) (spentScript : COutPoint → CScript)
    (ctx : PoolCtx) (pool : CStashedsendPool) (newVin : CTxIn) :
    pool.CollectsValid newVin verifyScript spentScript ctx ↔
      pool.JudgesRightly newVin verifyScript spentScript := by
  unfold CollectsValid
  by_cases hknown : pool.KnownSig newVin
  · rw [addScriptSig_of_known hknown]
    constructor
    · exact fun h => ⟨fun hfresh => absurd hknown hfresh,
        fun _ hvalid => Bool.false_ne_true (h.1.mpr hvalid), fun hfresh => absurd hknown hfresh⟩
    · exact fun h => ⟨iff_of_false Bool.false_ne_true (h.refused (.inl hknown)), fun _ => ⟨rfl, rfl⟩⟩
  · rw [addScriptSig_of_fresh hknown]
    dsimp only
    rw [addSigToEntries_isSome_iff]
    by_cases hfirst : pool.NamesUnsignedFirst newVin
    · have htaken := addSigToEntries_isSome_iff.mpr hfirst
      constructor
      · exact fun h => ⟨fun _ _ => (h.1.mp hfirst).2,
          fun hor => absurd hfirst (hor.resolve_left hknown), fun _ hnot => absurd hfirst hnot⟩
      · intro h
        have hvalid := h.taken hknown hfirst
        refine ⟨iff_of_true hfirst ⟨namesUnsigned_of_first hfirst, hvalid⟩, fun hfalse => ?_⟩
        rw [htaken] at hfalse
        cases hfalse
    · have hnone : addSigToEntries newVin pool.entries = none := by
        rw [← Option.not_isSome_iff_eq_none, addSigToEntries_isSome_iff]
        exact hfirst
      rw [hnone]
      constructor
      · rintro ⟨hiff, hkept⟩
        have hvin := congrArg CTransaction.vin (hkept rfl).1
        exact ⟨fun _ h => absurd h hfirst, fun _ hvalid => hfirst (hiff.mpr hvalid),
          fun _ _ => signInputs_eq_self_iff.mp hvin⟩
      · intro h
        refine ⟨iff_of_false hfirst (h.refused (.inr hfirst)), fun _ => ⟨?_, rfl⟩⟩
        rw [signInputs_eq_self_iff.mpr (h.kept hknown hfirst)]

/-! ### Forged signatures -/

end CStashedsendPool

def signingPool : CStashedsendPool :=
  { entries := (List.range 3).map fun n => .add 0 [{ prevout := ⟨5, n⟩ }] 10000100
      { nTime := 0, vin := [], vout := [] } [smallestDenomination 1]
    sessionUsers := 3 : CStashedsendPool }.finalise samplePoolCtx

def withSig (sig : UInt8) : CTxIn := { prevout := ⟨5, 0⟩, scriptSig := [sig] }

/-- Only `[1]` is a valid signature here. -/
def sampleVerify : ScriptVerifier := fun scriptSig _ _ _ _ _ => scriptSig = [1]

/-- An invalid signature is taken; and an invalid one that comes after a valid one replaces it in the final
transaction, although it is refused. -/
theorem addScriptSig_forged :
    ¬signingPool.CollectsValid (withSig 2) sampleVerify (fun _ => payToHash 9) samplePoolCtx ∧
      ¬(signingPool.addScriptSig samplePoolCtx sampleVerify (withSig 1)).2.CollectsValid (withSig 2)
        sampleVerify (fun _ => payToHash 9) samplePoolCtx := by
  constructor
  · rintro ⟨hiff, -⟩
    obtain ⟨-, n, txin, -, -, hvalid⟩ := hiff.mp (by decide)
    have hsig : ([2] : CScript) = [1] := of_decide_eq_true hvalid
    exact absurd hsig (by decide)
  · rintro ⟨-, hkept⟩
    exact absurd (hkept (by decide)).1 (by decide)

end Sphinx
