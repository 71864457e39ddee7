import Sphinx.Equiv.StashedsendPool
import Sphinx.Util.Loop
import Sphinx.Util.Matching
import Sphinx.Util.Run

/-!
# What a client signs

`SignFinalTransaction` takes one round for every input of every entry.  In a round it looks for the input
in the final transaction, counts the outputs to the scripts that the entry asks for, and adds up their
values.

* `foldlM_signEntry`: the rounds are the loops over the entries and their inputs;
* `exists_signRound_iff`: a signature is added for the inputs that are found, if the count and the total
  are right;
* `paysJust_of_subperm`: if the values are regular, the outputs asked for are there and the total is right,
  then no script is asked for twice, and nothing else is paid to these scripts;
* `signFinalTransaction_iff`: so a client signs only what it asked for exactly if every round is `Fair`;
* `signFinalTransaction_swapped`: one output asked for is paid twice, another not at all.
-/

namespace Sphinx

open CStashedsendPool (matchedOutputs refusesOutputs signEntry signInput totalValue)

/-- The outputs as pairs of script and value. -/
def payments (vout : List CTxOut) : List (CScript × CAmount) :=
  vout.map fun out => (out.scriptPubKey, out.nValue)

/-- The text by which scripts are compared. -/
def scriptText (p : CScript × CAmount) : List Char := p.1.toString

/-- The scripts asked for are different, and the outputs to them that are not worth nothing are those asked
for. -/
def PaysJust (asked vout : List CTxOut) : Prop :=
  Matching.Exact scriptText Prod.snd (payments asked) (payments vout)

/-- The outputs asked for are worth something, and those that are counted have no negative value and a
total that an `int64_t` can hold. -/
def RegularValues (asked vout : List CTxOut) : Prop :=
  (∀ out ∈ asked, 0 < out.nValue) ∧
    (∀ out ∈ matchedOutputs asked vout, 0 ≤ out.nValue) ∧
    ((matchedOutputs asked vout).map CTxOut.nValue).sum < 2 ^ 63

/-- An input of an entry, with the outputs of the entry. -/
abbrev SignRound := List CTxOut × CTxDSIn

def signRounds (entries : List CStashedSendEntry) : List SignRound :=
  entries.flatMap fun e => e.sev.map fun s => (e.vout, s)

section

variable (signSignature : CScript → CTransaction → Nat → CScript)

def signRound (st : CTransaction × List CTxIn) (r : SignRound) : Option (CTransaction × List CTxIn) :=
  signInput signSignature r.1 st r.2

/-- If the round adds a signature, the final transaction has the outputs asked for. -/
def SignsAsAsked (st : CTransaction × List CTxIn) (r : SignRound) : Prop :=
  ∀ st', signRound signSignature st r = some st' → st.2.length < st'.2.length →
    (payments r.1).Subperm (payments st.1.vout)

end

/-- The input is not in the final transaction, or the outputs are refused, or just the outputs asked for
are paid.  If the values are not regular they may be paid along with others. -/
def SignRound.Fair (st : CTransaction × List CTxIn) (r : SignRound) : Prop :=
  r.2.toCTxIn ∈ st.1.vin → refusesOutputs r.1 st.1.vout = false →
    PaysJust r.1 st.1.vout ∨
      (¬RegularValues r.1 st.1.vout ∧ (payments r.1).Subperm (payments st.1.vout))

variable {signSignature : CScript → CTransaction → Nat → CScript} {asked vout : List CTxOut}
  {st : CTransaction × List CTxIn} {r : SignRound}

/-! ### The rounds -/

/-- The loops of `SignFinalTransaction` as rounds, one entry after the other. -/
theorem foldlM_signEntry (entries : List CStashedSendEntry) : ∀ st,
    entries.foldlM (signEntry signSignature) st
      = (signRounds entries).foldlM (signRound signSignature) st := by
  induction entries with
  | nil => exact fun _ => rfl
  | cons e entries ih =>
    intro st
    rw [List.foldlM_cons, signRounds, List.flatMap_cons, List.foldlM_append, List.foldlM_map]
    exact congrArg _ (funext ih)

/-- **One round.** A signature is added if the input is found and the outputs are not refused. -/
theorem exists_signRound_iff :
    (∃ st', signRound signSignature st r = some st' ∧ st.2.length < st'.2.length) ↔
      r.2.toCTxIn ∈ st.1.vin ∧ refusesOutputs r.1 st.1.vout = false := by
  unfold signRound signInput
  have hnone := Loop.findRev?_zipIdx_eq_none (l := st.1.vin) (p := fun txin => txin = r.2.toCTxIn)
    (q := fun x => x.1 = r.2.toCTxIn) fun _ => rfl
  split
  next hfound =>
    have hnot : r.2.toCTxIn ∉ st.1.vin := fun h => of_decide_eq_false (hnone.mp hfound _ h) rfl
    simp [hnot]
  next hfound =>
    have hmem : r.2.toCTxIn ∈ st.1.vin := by
      by_contra hnot
      have hnot := hnone.mpr fun txin htxin => decide_eq_false fun h => hnot (h ▸ htxin)
      cases hfound.symm.trans hnot
    cases href : refusesOutputs r.1 st.1.vout <;> simp [hmem]

theorem signsAsAsked_iff : SignsAsAsked signSignature st r ↔ (r.2.toCTxIn ∈ st.1.vin →
    refusesOutputs r.1 st.1.vout = false →
    (payments r.1).Subperm (payments st.1.vout)) := by
  constructor
  · intro h hmem href
    obtain ⟨st', hst', hlt⟩ := exists_signRound_iff.mpr ⟨hmem, href⟩
    exact h st' hst' hlt
  · intro h st' hst' hlt
    obtain ⟨hmem, href⟩ := exists_signRound_iff.mp ⟨st', hst', hlt⟩
    exact h hmem href

/-! ### The outputs -/

theorem payments_matchedOutputs (asked vout : List CTxOut) :
    payments (matchedOutputs asked vout)
      = Matching.matched scriptText (payments asked) (payments vout) := by
  unfold payments matchedOutputs Matching.matched
  rw [List.map_flatMap, List.flatMap_map]
  refine List.flatMap_congr fun out _ => ?_
  have hcount : Matching.copies scriptText (asked.map fun out => (out.scriptPubKey, out.nValue))
      (out.scriptPubKey, out.nValue)
      = (asked.filter fun o => out.scriptPubKey.toString = o.scriptPubKey.toString).length := by
    unfold Matching.copies List.count
    rw [List.map_map, List.countP_map, ← List.countP_eq_length_filter]
    refine List.countP_congr fun o _ => ?_
    rw [decide_eq_true_iff]
    exact decide_eq_true_iff.trans eq_comm
  rw [List.map_map, hcount]
  exact List.map_const'

theorem sum_snd_payments (vout : List CTxOut) :
    ((payments vout).map Prod.snd).sum = (vout.map CTxOut.nValue).sum := by
  unfold payments
  rw [List.map_map]
  rfl

/-- **The outputs.** Among outputs that have those asked for, a total that is right leaves no room. -/
theorem paysJust_of_subperm (hreg : RegularValues asked vout)
    (href : refusesOutputs asked vout = false)
    (hsub : (payments asked).Subperm (payments vout)) : PaysJust asked vout := by
  obtain ⟨hpos, hnonneg, hlt⟩ := hreg
  unfold refusesOutputs totalValue at href
  rw [Bool.or_eq_false_iff, decide_eq_false_iff_not, decide_eq_false_iff_not, not_not] at href
  refine Matching.exact_of_subperm hsub ?_ ?_ ?_
  · exact List.forall_mem_map.mpr hpos
  · rw [← payments_matchedOutputs]
    exact List.forall_mem_map.mpr hnonneg
  · rw [← payments_matchedOutputs, sum_snd_payments, sum_snd_payments]
    have hmatched := List.sum_nonneg (List.forall_mem_map.mpr hnonneg)
    have hasked := List.sum_nonneg (List.forall_mem_map.mpr fun out hout => (hpos out hout).le)
    have htotal := href.2
    rw [toInt64_of_nonneg hmatched hlt] at htotal
    -- an `int64_t` holds the total of the values asked for, or that total is larger anyway
    by_cases hbig : (asked.map CTxOut.nValue).sum < 2 ^ 63
    · rw [toInt64_of_nonneg hasked hbig] at htotal
      exact htotal.le
    · exact (hlt.trans_le (not_lt.mp hbig)).le

theorem signsAsAsked_iff_fair : SignsAsAsked signSignature st r ↔ r.Fair st := by
  rw [signsAsAsked_iff]
  constructor
  · intro h hmem href
    have hsub := h hmem href
    by_cases hreg : RegularValues r.1 st.1.vout
    · exact .inl (paysJust_of_subperm hreg href hsub)
    · exact .inr ⟨hreg, hsub⟩
  · intro h hmem href
    rcases h hmem href with hjust | ⟨-, hsub⟩
    · exact Matching.subperm_of_exact hjust
    · exact hsub

/-- **The signatures of a client.**  `SignFinalTransaction` runs through the rounds, and keeps and sends what
they leave.  It signs only what it asked for, if and only if every round is fair. -/
theorem signFinalTransaction_iff (signSignature : CScript → CTransaction → Nat → CScript) (ctx : PoolCtx)
    (pool : CStashedsendPool) (finalTransactionNew : CTransaction) :
    pool.signFinalTransaction signSignature ctx finalTransactionNew
        = ((signRounds pool.entries).foldlM (signRound signSignature) (finalTransactionNew, [])).elim
          (false, { pool with finalTransaction := finalTransactionNew }.setNull ctx, [])
          (fun st => (true, { pool with finalTransaction := st.1 }, st.2)) ∧
    (Run.EveryStep (signRound signSignature) (SignsAsAsked signSignature) (signRounds pool.entries)
        (finalTransactionNew, [])
      ↔ Run.EveryStep (signRound signSignature) (fun st r => r.Fair st) (signRounds pool.entries)
        (finalTransactionNew, [])) := by
  refine ⟨?_, ?_⟩
  · rw [CStashedsendPool.signFinalTransaction, foldlM_signEntry]
    cases (signRounds pool.entries).foldlM (signRound signSignature) (finalTransactionNew, []) <;> rfl
  have h : SignsAsAsked signSignature = fun st r => r.Fair st :=
    funext fun st => funext fun r => propext signsAsAsked_iff_fair
  rw [h]

/-! ### An output that is paid twice -/

def mixedInput : CTxDSIn := { prevout := ⟨5, 0⟩, prevPubKey := payToHash 9 }

def mixedEntry : CStashedSendEntry where
  sev := [mixedInput]
  vout := [smallestDenomination 1, smallestDenomination 2]
  amount := 20000200
  collateral := { nTime := 0, vin := [], vout := [] }
  addedTime := 0

def transactionPaying (vout : List CTxOut) : CTransaction :=
  { nTime := 0, vin := [mixedInput.toCTxIn], vout := vout }

/-- The other output goes to somebody else, and the input is signed. -/
theorem signFinalTransaction_swapped :
    ¬Run.EveryStep (signRound fun _ _ _ => [1]) (SignsAsAsked fun _ _ _ => [1]) (signRounds [mixedEntry])
      (transactionPaying (List.replicate 2 (smallestDenomination 1)), []) := by
  intro h
  have hsub := signsAsAsked_iff.mp h.1 (by decide) (by decide)
  have hmem : (payToHash 2, (10000100 : CAmount)) ∈ payments mixedEntry.vout := by decide
  exact absurd (hsub.subset hmem) (by decide)

end Sphinx
