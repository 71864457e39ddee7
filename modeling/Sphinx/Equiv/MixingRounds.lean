import Mathlib.Tactic.IntervalCases
import Sphinx.MixingRounds
import Sphinx.Util.Loop
import Sphinx.Util.Run
import Sphinx.Util.Reach

/-!
# The mixing depth is the length of the shortest chain

The recursion is cut off after 16 transactions, and what was computed behind the cut is kept for all later queries.
An output that the wallet made has an `nRounds` that nobody has set, and once its transaction is in the table this
counts as known.

* `Scanned.step`, `isRounds_of_scan`: the loop over the inputs finds the shortest chain;
* `getRealInputStashedsendRounds_ok`: a query that is not cut off wrongly gives the depth, and keeps the table right;
* `queryRounds_run`: any sequence of such queries.
-/

namespace Sphinx

open ShortestChain

variable {k : Nat}

/-- A wallet without cycles among its transactions. -/
structure AcyclicWallet extends CWallet where
  rank : Uint256 → Nat
  rank_lt : ∀ hash wtx, mapWallet.lookup hash = some wtx → ∀ txin ∈ wtx.tx.vin,
    (mapWallet.lookup txin.prevout.hash).isSome = true → rank txin.prevout.hash < rank hash

namespace CWallet

variable (isMine : CScript → Nat) (w : CWallet)

/-! ### The depth -/

/-- An output of a denomination. -/
def Denominated (o : COutPoint) : Prop :=
  ∃ txout, w.output o = some txout ∧ isCollateralAmount txout.nValue = false ∧
    isDenominatedAmount txout.nValue = true

/-- All outputs of the transaction are of a denomination. -/
def FullyDenominated (o : COutPoint) : Prop :=
  w.Denominated o ∧ ∃ wtx, w.mapWallet.lookup o.hash = some wtx ∧
    (wtx.tx.vout.all fun out => isDenominatedAmount out.nValue) = true

/-- `o'` is spent by the transaction of `o`, and is the wallet's. -/
def OwnInput (o o' : COutPoint) : Prop :=
  ∃ wtx, w.mapWallet.lookup o.hash = some wtx ∧ ∃ txin ∈ wtx.tx.vin, w.isMineIn isMine txin = true ∧
    txin.prevout = o'

/-- The recursion looks at `o'` for the depth of `o`. -/
def LooksAt (o o' : COutPoint) : Prop := w.FullyDenominated o ∧ w.OwnInput isMine o o'

/-- A link of a chain of mixing transactions. -/
def MixStep (o o' : COutPoint) : Prop := w.LooksAt isMine o o' ∧ w.Denominated o'

/-- What a query should return: a class code, or the length of the shortest chain, at most 16. -/
def IsRounds (o : COutPoint) (nRounds : Int) : Prop :=
  ∃ txout, w.output o = some txout ∧
    if isCollateralAmount txout.nValue then nRounds = -3
    else if !isDenominatedAmount txout.nValue then nRounds = -2
    else ∃ d : Nat, IsShortest (w.MixStep isMine) o d ∧ nRounds = min 16 d

/-- Where the recursion is cut off it would find 16 anyway. -/
def CutRight (left : Nat) (o : COutPoint) : Prop :=
  ∀ p, Behind (w.LooksAt isMine) left o p → w.FullyDenominated p → (∃ o', w.OwnInput isMine p o') →
    ∀ d, IsShortest (w.MixStep isMine) p d → 16 ≤ d

/-- What the wallet has as `nRounds` is the initial value, or right. -/
def SetRounds (o : COutPoint) : Prop :=
  ∀ txout, w.output o = some txout → txout.nRounds = -10 ∨ w.IsRounds isMine o txout.nRounds

/-- The outpoints that a query for `o` may look up. -/
def Visited (left : Nat) (o : COutPoint) : Set COutPoint := {p | ∃ k ≤ left, Behind (w.LooksAt isMine) k o p}

/-- What the table knows of the outpoints `S` is right. -/
def TableRight (S : Set COutPoint) (mDenomWtxes : DenomWtxes) : Prop :=
  ∀ hash tx, mDenomWtxes.lookup hash = some tx → ∃ wtx, w.mapWallet.lookup hash = some wtx ∧
    tx.vout.length = wtx.tx.vout.length ∧ ∀ n txout, ⟨hash, n⟩ ∈ S → tx.vout[n]? = some txout →
      txout.nRounds = -10 ∨ w.IsRounds isMine ⟨hash, n⟩ txout.nRounds

/-- No transaction is taken out of the table. -/
def KeepsKnown (mDenomWtxes mDenomWtxes' : DenomWtxes) : Prop :=
  ∀ hash, (mDenomWtxes.lookup hash).isSome = true → (mDenomWtxes'.lookup hash).isSome = true

variable {isMine w} {o o' : COutPoint} {m : DenomWtxes} {v : Int} {S S' : Set COutPoint}

theorem output_eq_some {txout : CTxOut} (h : w.output o = some txout) :
    ∃ wtx, w.mapWallet.lookup o.hash = some wtx ∧ wtx.tx.vout[o.n]? = some txout := by
  obtain ⟨wtx, hwtx, hout⟩ := Option.bind_eq_some_iff.mp h
  exact ⟨wtx, hwtx, hout⟩

theorem output_of_isMineIn {txin : CTxIn} (h : w.isMineIn isMine txin = true) :
    (w.output txin.prevout).isSome = true := by
  unfold isMineIn at h
  cases hout : w.output txin.prevout with
  | none =>
    rw [hout] at h
    cases h
  | some txout => rfl

theorem IsRounds.of_denominated (h : w.IsRounds isMine o v) (hdenom : w.Denominated o) :
    ∃ d : Nat, IsShortest (w.MixStep isMine) o d ∧ v = min 16 d := by
  obtain ⟨txout, hout, hv⟩ := h
  obtain ⟨txout', hout', hcollateral, hamount⟩ := hdenom
  obtain rfl : txout' = txout := Option.some.inj (hout'.symm.trans hout)
  rwa [hcollateral, hamount, if_neg Bool.false_ne_true, Bool.not_true, if_neg Bool.false_ne_true] at hv

theorem isRounds_of_shortest (hdenom : w.Denominated o) {d : Nat} (hd : IsShortest (w.MixStep isMine) o d)
    (hv : v = min 16 d) : w.IsRounds isMine o v := by
  obtain ⟨txout, hout, hcollateral, hamount⟩ := hdenom
  refine ⟨txout, hout, ?_⟩
  rw [hcollateral, hamount, if_neg Bool.false_ne_true, Bool.not_true, if_neg Bool.false_ne_true]
  exact ⟨d, hd, hv⟩

theorem IsRounds.nonneg_iff (h : w.IsRounds isMine o v) : 0 ≤ v ↔ w.Denominated o := by
  constructor
  · intro hv
    obtain ⟨txout, hout, hclass⟩ := h
    by_cases hcollateral : isCollateralAmount txout.nValue = true
    · rw [if_pos hcollateral] at hclass
      omega
    rw [if_neg hcollateral] at hclass
    by_cases hamount : isDenominatedAmount txout.nValue = true
    · exact ⟨txout, hout, Bool.eq_false_iff.mpr hcollateral, hamount⟩
    · rw [Bool.not_eq_true] at hamount
      rw [hamount, Bool.not_false, if_pos rfl] at hclass
      omega
  · intro hdenom
    obtain ⟨d, -, rfl⟩ := h.of_denominated hdenom
    omega

/-! ### The table -/

theorem TableRight.mono (hm : w.TableRight isMine S m) (h : S' ⊆ S) : w.TableRight isMine S' m := by
  intro hash tx htx
  obtain ⟨wtx, hwtx, hlength, hknown⟩ := hm hash tx htx
  exact ⟨wtx, hwtx, hlength, fun n txout hn => hknown n txout (h hn)⟩

/-- A transaction comes into the table with what the wallet has as `nRounds`. -/
theorem tableRight_insert (hm : w.TableRight isMine S m) {hash : Uint256} {wtx : CWalletTx}
    (hwtx : w.mapWallet.lookup hash = some wtx) (hset : ∀ p ∈ S, p.hash = hash → w.SetRounds isMine p) :
    w.TableRight isMine S (m.insert hash wtx.tx) := by
  intro hash' tx htx
  by_cases hhash : hash' = hash
  · subst hhash
    rw [AList.lookup_insert] at htx
    obtain rfl := Option.some.inj htx
    refine ⟨wtx, hwtx, rfl, fun n txout hn hout => hset _ hn rfl txout ?_⟩
    rw [output, hwtx, Option.bind_some, hout]
  · rw [AList.lookup_insert_ne hhash] at htx
    exact hm hash' tx htx

/-- Storing a right value keeps the table right. -/
theorem storeRounds_ok (hm : w.TableRight isMine (S \ {o}) m) (hknown : (m.lookup o.hash).isSome = true)
    (hv : w.IsRounds isMine o v) :
    ∃ m', storeRounds m o v = some (v, m') ∧ w.TableRight isMine S m' ∧ KeepsKnown m m' := by
  obtain ⟨tx, htx⟩ := Option.isSome_iff_exists.mp hknown
  obtain ⟨wtx, hwtx, hlength, hrounds⟩ := hm o.hash tx htx
  obtain ⟨txout, hout, hclass⟩ := hv
  obtain ⟨wtx', hwtx', hout'⟩ := output_eq_some hout
  obtain rfl : wtx' = wtx := Option.some.inj (hwtx'.symm.trans hwtx)
  have hlt : o.n < tx.vout.length := by
    rw [hlength]
    exact (List.getElem?_eq_some_iff.mp hout').1
  refine ⟨_, by unfold storeRounds; rw [htx, Option.bind_some, List.getElem?_eq_getElem hlt, Option.map_some],
    ?_, ?_⟩
  · -- only the entry of this outpoint changes
    intro hash tx' htx'
    by_cases hhash : hash = o.hash
    · subst hhash
      rw [AList.lookup_insert] at htx'
      obtain rfl := Option.some.inj htx'
      refine ⟨wtx', hwtx, by rw [List.length_set, hlength], fun n out hS hn => ?_⟩
      by_cases hno : n = o.n
      · subst hno
        rw [List.getElem?_set_self hlt] at hn
        obtain rfl := Option.some.inj hn
        exact .inr ⟨txout, hout, hclass⟩
      · rw [List.getElem?_set_ne (Ne.symm hno)] at hn
        exact hrounds n out ⟨hS, fun heq => hno (congrArg COutPoint.n heq)⟩ hn
    · rw [AList.lookup_insert_ne hhash] at htx'
      obtain ⟨wtx₁, hwtx₁, hlength₁, hrounds₁⟩ := hm hash tx' htx'
      refine ⟨wtx₁, hwtx₁, hlength₁, fun n out hS => hrounds₁ n out ⟨hS, fun heq => hhash ?_⟩⟩
      exact congrArg COutPoint.hash heq
  · intro hash hsome
    by_cases hhash : hash = o.hash
    · rw [hhash, AList.lookup_insert]
      rfl
    · rw [AList.lookup_insert_ne hhash]
      exact hsome

/-! ### The loop over the inputs -/

/-- After some inputs, the smallest of their values that is not negative; `R` says what the value of an input is. -/
structure Scanned (isMine : CScript → Nat) (w : CWallet) (S : Set COutPoint) (R : COutPoint → Int → Prop)
    (m : DenomWtxes) (done : List CTxIn) (s : ShortestScan) : Prop where
  right : w.TableRight isMine S s.mDenomWtxes
  keeps : KeepsKnown m s.mDenomWtxes
  initial : s.fDenomFound = false → s.nShortest = -10
  found : s.fDenomFound = true → 0 ≤ s.nShortest ∧
    ∃ txin ∈ done, w.isMineIn isMine txin = true ∧ R txin.prevout s.nShortest
  least : ∀ txin ∈ done, w.isMineIn isMine txin = true →
    ∃ v, R txin.prevout v ∧ (0 ≤ v → s.fDenomFound = true ∧ s.nShortest ≤ v)

section Scan

variable {R : COutPoint → Int → Prop} {inputRounds : DenomWtxes → COutPoint → Option (Int × DenomWtxes)}
  {done : List CTxIn} {s : ShortestScan} {in2 : CTxIn}

theorem Scanned.step (h : Scanned isMine w S R m done s)
    (hinput : w.isMineIn isMine in2 = true → ∃ v m', inputRounds s.mDenomWtxes in2.prevout = some (v, m') ∧
      w.TableRight isMine S m' ∧ KeepsKnown s.mDenomWtxes m' ∧ R in2.prevout v) :
    ∃ s', w.scanInput isMine inputRounds s in2 = some s' ∧ Scanned isMine w S R m (done ++ [in2]) s' := by
  have hin2 : in2 ∈ done ++ [in2] := List.mem_append_right _ (List.mem_singleton.mpr rfl)
  have hsplit : ∀ txin ∈ done ++ [in2], txin ∈ done ∨ txin = in2 := fun txin hmem =>
    (List.mem_append.mp hmem).imp_right List.mem_singleton.mp
  by_cases hmine : w.isMineIn isMine in2 = true
  · obtain ⟨v, m', hv, hright, hkeeps, hR⟩ := hinput hmine
    unfold scanInput
    rw [hmine, Bool.not_true, if_neg Bool.false_ne_true, hv, Option.map_some]
    refine ⟨_, rfl, ?_⟩
    have hkeeps' : KeepsKnown m m' := fun hash hsome => hkeeps hash (h.keeps hash hsome)
    -- the new depth replaces the shortest one only if it is shorter, or the first
    by_cases hless : 0 ≤ v ∧ (v < s.nShortest ∨ s.nShortest = -10)
    · rw [if_pos hless]
      refine ⟨hright, hkeeps', fun hfalse => Bool.noConfusion hfalse,
        fun _ => ⟨hless.1, in2, hin2, hmine, hR⟩, ?_⟩
      intro txin hmem hmine'
      rcases hsplit txin hmem with hmem | rfl
      · obtain ⟨u, hu, hle⟩ := h.least txin hmem hmine'
        refine ⟨u, hu, fun hnonneg => ⟨rfl, ?_⟩⟩
        obtain ⟨hfound, hshort⟩ := hle hnonneg
        have hpos := (h.found hfound).1
        rcases hless.2 with hlt | heq
        · exact hlt.le.trans hshort
        · omega
      · exact ⟨v, hR, fun _ => ⟨rfl, le_refl _⟩⟩
    · rw [if_neg hless]
      refine ⟨hright, hkeeps', h.initial, fun hfound => ?_, ?_⟩
      · obtain ⟨hnonneg, txin, hmem, hmine', hR'⟩ := h.found hfound
        exact ⟨hnonneg, txin, List.mem_append_left _ hmem, hmine', hR'⟩
      · intro txin hmem hmine'
        rcases hsplit txin hmem with hmem | rfl
        · exact h.least txin hmem hmine'
        · refine ⟨v, hR, fun hnonneg => ?_⟩
          have hnot : ¬ (v < s.nShortest ∨ s.nShortest = -10) := fun hor => hless ⟨hnonneg, hor⟩
          rw [not_or, not_lt] at hnot
          refine ⟨?_, hnot.1⟩
          by_contra hfound
          exact hnot.2 (h.initial (Bool.eq_false_iff.mpr hfound))
  · refine ⟨s, by unfold scanInput; rw [Bool.eq_false_iff.mpr hmine]; rfl, h.right, h.keeps, h.initial, ?_, ?_⟩
    · intro hfound
      obtain ⟨hnonneg, txin, hmem, hmine', hR'⟩ := h.found hfound
      exact ⟨hnonneg, txin, List.mem_append_left _ hmem, hmine', hR'⟩
    · intro txin hmem hmine'
      rcases hsplit txin hmem with hmem | rfl
      · exact h.least txin hmem hmine'
      · exact absurd hmine' hmine

theorem scan_total (R : COutPoint → Int → Prop)
    (inputRounds : DenomWtxes → COutPoint → Option (Int × DenomWtxes))
    (vin : List CTxIn) (hm : w.TableRight isMine S m)
    (hinput : ∀ txin ∈ vin, w.isMineIn isMine txin = true → ∀ m', w.TableRight isMine S m' →
      ∃ v m'', inputRounds m' txin.prevout = some (v, m'') ∧ w.TableRight isMine S m'' ∧ KeepsKnown m' m'' ∧
        R txin.prevout v) :
    ∃ s, vin.foldlM (w.scanInput isMine inputRounds) { mDenomWtxes := m } = some s ∧
      Scanned isMine w S R m vin s := by
  refine Loop.foldlM_total (fun done s => Scanned isMine w S R m done s)
    ⟨hm, fun _ h => h, fun _ => rfl, fun hfound => Bool.noConfusion hfound,
      fun txin hmem => absurd hmem List.not_mem_nil⟩ ?_
  intro done in2 rest s hsplit h
  refine h.step fun hmine => hinput in2 ?_ hmine s.mDenomWtxes h.right
  rw [hsplit]
  exact List.mem_append_right _ List.mem_cons_self

end Scan

section Value

variable {wtx : CWalletTx} {s : ShortestScan}

/-- The value that is stored after the loop. -/
def scannedRounds (s : ShortestScan) : Int :=
  if s.fDenomFound then if 15 ≤ s.nShortest then 16 else s.nShortest + 1 else 0

/-- The loop finds the shortest chain. -/
theorem isRounds_of_scan (hfull : w.FullyDenominated o) (hwtx : w.mapWallet.lookup o.hash = some wtx)
    (h : Scanned isMine w S (w.IsRounds isMine) m wtx.tx.vin s) : w.IsRounds isMine o (scannedRounds s) := by
  have hnext : ∀ o', w.MixStep isMine o o' → ∃ txin ∈ wtx.tx.vin, w.isMineIn isMine txin = true ∧
      txin.prevout = o' ∧ w.Denominated o' := by
    rintro o' ⟨⟨-, wtx', hwtx', txin, hmem, hmine, hprev⟩, hdenom⟩
    obtain rfl : wtx' = wtx := Option.some.inj (hwtx'.symm.trans hwtx)
    exact ⟨txin, hmem, hmine, hprev, hdenom⟩
  cases hfound : s.fDenomFound with
  | false =>
    -- no own input is denominated: the chain ends here
    have hstop : ∀ o', ¬ w.MixStep isMine o o' := by
      intro o' hstep
      obtain ⟨txin, hmem, hmine, rfl, hdenom⟩ := hnext o' hstep
      obtain ⟨v, hv, hle⟩ := h.least txin hmem hmine
      rw [hfound] at hle
      exact Bool.false_ne_true (hle (hv.nonneg_iff.mpr hdenom)).1
    refine isRounds_of_shortest hfull.1 (isShortest_stop hstop) ?_
    rw [scannedRounds, hfound]
    rfl
  | true =>
    obtain ⟨hnonneg, txin, hmem, hmine, hR⟩ := h.found hfound
    have hdenom := hR.nonneg_iff.mp hnonneg
    have hstep : w.MixStep isMine o txin.prevout := ⟨⟨hfull, wtx, hwtx, txin, hmem, hmine, rfl⟩, hdenom⟩
    obtain ⟨d, hd, hshort⟩ := hR.of_denominated hdenom
    have hleast : ∀ o', w.MixStep isMine o o' → ∀ d', IsShortest (w.MixStep isMine) o' d' →
        s.nShortest ≤ d' := by
      intro o' hstep' d' hd'
      obtain ⟨txin', hmem', hmine', rfl, hdenom'⟩ := hnext o' hstep'
      obtain ⟨v, hv, hle⟩ := h.least txin' hmem' hmine'
      obtain ⟨e, he, rfl⟩ := hv.of_denominated hdenom'
      obtain rfl := he.unique hd'
      exact (hle (by omega)).2.trans (by omega)
    -- a chain of 16 steps or more counts as 16
    by_cases hcap : 15 ≤ s.nShortest
    · obtain ⟨e, he⟩ := exists_isShortest ⟨_, EndsAfter.next hstep hd.1⟩
      have hlong : 15 + 1 ≤ e := lt_of_endsAfter he.1 hstep fun o' hstep' d' hd' => by
        have := hleast o' hstep' d' hd'
        omega
      refine isRounds_of_shortest hfull.1 he ?_
      rw [scannedRounds, hfound, if_pos rfl, if_pos hcap]
      omega
    · refine isRounds_of_shortest hfull.1 (isShortest_next hstep hd fun o' hstep' d' hd' => ?_) ?_
      · have := hleast o' hstep' d' hd'
        omega
      · rw [scannedRounds, hfound, if_pos rfl, if_neg hcap]
        push_cast
        omega

/-- Where the recursion is cut off, every own input counts as 15. -/
theorem isRounds_of_cut (hchain : ∃ k, EndsAfter (w.MixStep isMine) o k) (hfull : w.FullyDenominated o)
    (hwtx : w.mapWallet.lookup o.hash = some wtx) (hright : w.CutRight isMine 0 o)
    (h : Scanned isMine w S (fun _ v => v = 15) m wtx.tx.vin s) : w.IsRounds isMine o (scannedRounds s) := by
  cases hfound : s.fDenomFound with
  | false =>
    have hstop : ∀ o', ¬ w.MixStep isMine o o' := by
      rintro o' ⟨⟨-, wtx', hwtx', txin, hmem, hmine, -⟩, -⟩
      obtain rfl : wtx' = wtx := Option.some.inj (hwtx'.symm.trans hwtx)
      obtain ⟨v, rfl, hle⟩ := h.least txin hmem hmine
      rw [hfound] at hle
      exact Bool.false_ne_true (hle (by omega)).1
    refine isRounds_of_shortest hfull.1 (isShortest_stop hstop) ?_
    rw [scannedRounds, hfound]
    rfl
  | true =>
    obtain ⟨-, txin, hmem, hmine, hshort⟩ := h.found hfound
    obtain ⟨d, hd⟩ := exists_isShortest hchain
    have hlong := hright o (.refl o) hfull ⟨txin.prevout, wtx, hwtx, txin, hmem, hmine, rfl⟩ d hd
    refine isRounds_of_shortest hfull.1 hd ?_
    rw [scannedRounds, hfound, if_pos rfl, if_pos (by omega)]
    omega

end Value

/-! ### One query -/

theorem newRounds_ok {inputRounds : DenomWtxes → COutPoint → Option (Int × DenomWtxes)} {wtx : CWalletTx}
    {txout : CTxOut} (hwtx : w.mapWallet.lookup o.hash = some wtx) (hout : wtx.tx.vout[o.n]? = some txout)
    (hm : w.TableRight isMine (S \ {o}) m) (hknown : (m.lookup o.hash).isSome = true)
    (hscan : w.FullyDenominated o → ∃ s,
      wtx.tx.vin.foldlM (w.scanInput isMine inputRounds) { mDenomWtxes := m } = some s ∧
        w.TableRight isMine (S \ {o}) s.mDenomWtxes ∧ KeepsKnown m s.mDenomWtxes ∧
        w.IsRounds isMine o (scannedRounds s)) :
    ∃ v m', w.newRounds isMine inputRounds wtx m o = some (v, m') ∧ w.TableRight isMine S m' ∧ KeepsKnown m m' ∧
      w.IsRounds isMine o v := by
  have houtput : w.output o = some txout := by
    unfold output
    rw [hwtx, Option.bind_some, hout]
  have hstore : ∀ v, w.IsRounds isMine o v → ∃ v' m', storeRounds m o v = some (v', m') ∧
      w.TableRight isMine S m' ∧
      KeepsKnown m m' ∧ w.IsRounds isMine o v' := by
    intro v hv
    obtain ⟨m', hm', hright, hkeeps⟩ := storeRounds_ok hm hknown hv
    exact ⟨v, m', hm', hright, hkeeps, hv⟩
  unfold newRounds
  rw [hout]
  dsimp only
  by_cases hcollateral : isCollateralAmount txout.nValue = true
  · rw [if_pos hcollateral]
    refine hstore (-3) ⟨txout, houtput, ?_⟩
    rw [if_pos hcollateral]
  rw [if_neg hcollateral]
  cases hamount : isDenominatedAmount txout.nValue with
  | false =>
    rw [Bool.not_false, if_pos rfl]
    refine hstore (-2) ⟨txout, houtput, ?_⟩
    rw [if_neg hcollateral, hamount, Bool.not_false, if_pos rfl]
  | true =>
    rw [Bool.not_true, if_neg Bool.false_ne_true]
    have hdenom : w.Denominated o := ⟨txout, houtput, Bool.eq_false_iff.mpr hcollateral, hamount⟩
    cases hall : wtx.tx.vout.all fun out => isDenominatedAmount out.nValue with
    | false =>
      rw [Bool.not_false, if_pos rfl]
      refine hstore 0 (isRounds_of_shortest hdenom (isShortest_stop ?_) rfl)
      rintro o' ⟨⟨⟨-, wtx', hwtx', hall'⟩, -⟩, -⟩
      obtain rfl : wtx' = wtx := Option.some.inj (hwtx'.symm.trans hwtx)
      rw [hall] at hall'
      cases hall'
    | true =>
      rw [Bool.not_true, if_neg Bool.false_ne_true]
      obtain ⟨s, hs, hright, hkeeps, hv⟩ := hscan ⟨hdenom, wtx, hwtx, hall⟩
      rw [hs, Option.bind_some]
      obtain ⟨m', hm', hright', hkeeps'⟩ := storeRounds_ok hright (hkeeps _ hknown) hv
      exact ⟨_, m', hm', hright', fun hash hsome => hkeeps' hash (hkeeps hash hsome), hv⟩

end CWallet

namespace AcyclicWallet

variable {isMine : CScript → Nat} (w : AcyclicWallet) {m : DenomWtxes} {o p : COutPoint} {S V : Set COutPoint}

/-- The rank falls with every step. -/
theorem rank_behind {k : Nat} (h : Behind (w.LooksAt isMine) k o p) : w.rank p.hash + k ≤ w.rank o.hash := by
  induction h with
  | refl a => exact Nat.le_refl _
  | next hab _ ih =>
    obtain ⟨-, wtx, hwtx, txin, hmem, hmine, rfl⟩ := hab
    obtain ⟨txout, hout⟩ := Option.isSome_iff_exists.mp (CWallet.output_of_isMineIn hmine)
    obtain ⟨prev, hprev, -⟩ := CWallet.output_eq_some hout
    exact Nat.succ_le_of_lt (ih.trans_lt (w.rank_lt _ wtx hwtx txin hmem (by rw [hprev]; rfl)))

theorem exists_chain (o : COutPoint) : ∃ k, EndsAfter (w.MixStep isMine) o k :=
  exists_endsAfter_of_rank (fun _ _ hstep => Nat.lt_of_succ_le (w.rank_behind (.next hstep.1 (.refl _)))) o

/-- Of the outpoints `V` that are looked up, one whose rounds are not set is the only one of its transaction. -/
def AloneIn (isMine : CScript → Nat) (w : AcyclicWallet) (V S : Set COutPoint) : Prop :=
  ∀ p ∈ S, w.SetRounds isMine p ∨ ∀ q ∈ V, q.hash = p.hash → q = p

/-- The look into the table, for whatever answers for the inputs. -/
theorem lookup_ok {left : Nat} (hm : w.TableRight isMine S m) (ho : (w.output o).isSome = true) (hS : o ∈ S)
    (hV : o ∈ V) (halone : w.AloneIn isMine V S)
    (hscan : ∀ (m : DenomWtxes) (wtx : CWalletTx), w.TableRight isMine (S \ {o}) m →
      w.mapWallet.lookup o.hash = some wtx → w.FullyDenominated o → ∃ s,
        wtx.tx.vin.foldlM (w.scanInput isMine (w.getRealInputStashedsendRounds isMine left)) { mDenomWtxes := m } =
          some s ∧ w.TableRight isMine (S \ {o}) s.mDenomWtxes ∧ CWallet.KeepsKnown m s.mDenomWtxes ∧
        w.IsRounds isMine o (CWallet.scannedRounds s)) :
    ∃ v m', w.getRealInputStashedsendRounds isMine (left + 1) m o = some (v, m') ∧ w.TableRight isMine S m' ∧
      CWallet.KeepsKnown m m' ∧ w.IsRounds isMine o v := by
  obtain ⟨txout, hout⟩ := Option.isSome_iff_exists.mp ho
  obtain ⟨wtx, hwtx, hvout⟩ := CWallet.output_eq_some hout
  have hrest : w.TableRight isMine (S \ {o}) m := hm.mono Set.sdiff_subset
  unfold CWallet.getRealInputStashedsendRounds
  rw [hwtx]
  dsimp only
  -- the transaction is put into the table the first time it is asked for
  cases htx : m.lookup o.hash with
  | none =>
    have hinsert := CWallet.tableRight_insert hrest hwtx fun p hp hhash =>
      (halone p hp.1).resolve_right fun honly => hp.2 (honly o hV hhash.symm).symm
    obtain ⟨v, m', hv, hright, hkeeps, hrounds⟩ := CWallet.newRounds_ok hwtx hvout hinsert
      (by rw [AList.lookup_insert]; rfl) (hscan _ wtx hinsert hwtx)
    refine ⟨v, m', hv, hright, fun hash hsome => hkeeps hash ?_, hrounds⟩
    rw [MapLoop.isSome_lookup_insert, hsome]
    rfl
  | some tx =>
    obtain ⟨wtx', hwtx', hlength, hknown⟩ := hm o.hash tx htx
    obtain rfl : wtx' = wtx := Option.some.inj (hwtx'.symm.trans hwtx)
    have hlt : o.n < tx.vout.length := by
      rw [hlength]
      exact (List.getElem?_eq_some_iff.mp hvout).1
    dsimp only
    rw [List.getElem?_eq_getElem hlt, Option.bind_some]
    by_cases hinitial : tx.vout[o.n].nRounds ≠ -10
    · rw [if_pos hinitial]
      exact ⟨_, m, rfl, hm, fun _ h => h, (hknown o.n _ hS (List.getElem?_eq_getElem hlt)).resolve_left hinitial⟩
    · rw [if_neg hinitial]
      exact CWallet.newRounds_ok hwtx hvout hrest (by rw [htx]; rfl) (hscan m wtx' hrest hwtx)

theorem getRealInputStashedsendRounds_ok (left : Nat) {m : DenomWtxes} {o : COutPoint} {S : Set COutPoint}
    (hm : w.TableRight isMine S m) (ho : (w.output o).isSome = true) (hright : w.CutRight isMine left o)
    (hS : w.Visited isMine left o ⊆ S) (hV : w.Visited isMine left o ⊆ V) (halone : w.AloneIn isMine V S) :
    ∃ v m', w.getRealInputStashedsendRounds isMine (left + 1) m o = some (v, m') ∧ w.TableRight isMine S m' ∧
      CWallet.KeepsKnown m m' ∧ w.IsRounds isMine o v := by
  have hself : o ∈ w.Visited isMine left o := ⟨0, Nat.zero_le _, .refl o⟩
  induction left generalizing m o S with
  | zero =>
    refine w.lookup_ok hm ho (hS hself) (hV hself) halone fun m wtx hm hwtx hfull => ?_
    obtain ⟨s, hs, h⟩ := CWallet.scan_total (fun _ v => v = 15) (w.getRealInputStashedsendRounds isMine 0)
        wtx.tx.vin hm
      fun txin _ _ m' hm' => ⟨15, m', rfl, hm', fun _ h => h, rfl⟩
    exact ⟨s, hs, h.right, h.keeps, CWallet.isRounds_of_cut (w.exists_chain o) hfull hwtx hright h⟩
  | succ left ih =>
    refine w.lookup_ok hm ho (hS hself) (hV hself) halone fun m wtx hm hwtx hfull => ?_
    have hlooks : ∀ txin ∈ wtx.tx.vin, w.isMineIn isMine txin = true → w.LooksAt isMine o txin.prevout :=
      fun txin hmem hmine => ⟨hfull, wtx, hwtx, txin, hmem, hmine, rfl⟩
    -- what lies behind an input is behind `o`, and is not `o`
    have hbehind : ∀ txin ∈ wtx.tx.vin, w.isMineIn isMine txin = true →
        w.Visited isMine left txin.prevout ⊆ w.Visited isMine (left + 1) o \ {o} := by
      rintro txin hmem hmine p ⟨k, hk, hp⟩
      have hp := Behind.next (hlooks txin hmem hmine) hp
      refine ⟨⟨k + 1, Nat.succ_le_succ hk, hp⟩, ?_⟩
      rintro rfl
      exact absurd (w.rank_behind hp) (by omega)
    obtain ⟨s, hs, h⟩ := CWallet.scan_total (w.IsRounds isMine) (w.getRealInputStashedsendRounds isMine (left + 1))
      wtx.tx.vin hm fun txin hmem hmine m' hm' => ih hm' (CWallet.output_of_isMineIn hmine)
        (fun p hp => hright p (.next (hlooks txin hmem hmine) hp))
        ((hbehind txin hmem hmine).trans (Set.sdiff_subset_sdiff_left hS))
        ((hbehind txin hmem hmine).trans (Set.sdiff_subset.trans hV)) (fun p hp => halone p hp.1)
        ⟨0, Nat.zero_le _, .refl _⟩
    exact ⟨s, hs, h.right, h.keeps, CWallet.isRounds_of_scan hfull hwtx h⟩

/-! ### Sequences of queries -/

/-- An index after the outputs is asked for at most while the transaction is not in the table, the recursion is not
cut off wrongly, and no output that may be looked up has an `nRounds` that nobody has set, unless its transaction
comes into the table with it. -/
structure QueryOk (isMine : CScript → Nat) (w : AcyclicWallet) (m : DenomWtxes) (o : COutPoint) : Prop where
  index : ∀ wtx, w.mapWallet.lookup o.hash = some wtx → wtx.tx.vout.length ≤ o.n → m.lookup o.hash = none
  cut : w.CutRight isMine 15 o
  unset : ∀ p ∈ w.Visited isMine 15 o, w.SetRounds isMine p ∨
    (m.lookup p.hash = none ∧ ∀ q ∈ w.Visited isMine 15 o, q.hash = p.hash → q = p)

/-- What the table knows of outpoints whose rounds were set is right. -/
abbrev Right (isMine : CScript → Nat) (w : AcyclicWallet) (m : DenomWtxes) : Prop :=
  w.TableRight isMine {p | w.SetRounds isMine p} m

theorem queryRounds_ok (hm : w.Right isMine m) (ho : w.QueryOk isMine m o) :
    ∃ v m', w.queryRounds isMine m o = some (v, m') ∧ w.Right isMine m' ∧
      ((w.output o).isSome = true → w.IsRounds isMine o v) := by
  by_cases hsome : (w.output o).isSome = true
  · have hm' : w.TableRight isMine ({p | w.SetRounds isMine p} ∪ w.Visited isMine 15 o) m := by
      intro hash tx htx
      obtain ⟨wtx, hwtx, hlength, hknown⟩ := hm hash tx htx
      refine ⟨wtx, hwtx, hlength, fun n txout hn => hknown n txout (hn.elim id fun hvisited => ?_)⟩
      refine (ho.unset _ hvisited).resolve_right fun hnew => ?_
      rw [hnew.1] at htx
      cases htx
    obtain ⟨v, m', hv, hright, -, hrounds⟩ := w.getRealInputStashedsendRounds_ok 15 hm' hsome ho.cut
      Set.subset_union_right subset_rfl fun p hp =>
        hp.elim .inl fun hvisited => (ho.unset p hvisited).imp_right And.right
    exact ⟨v, m', hv, hright.mono Set.subset_union_left, fun _ => hrounds⟩
  · unfold CWallet.queryRounds CWallet.getRealInputStashedsendRounds
    cases hwtx : w.mapWallet.lookup o.hash with
    | none => exact ⟨_, m, rfl, hm, fun h => absurd h hsome⟩
    | some wtx =>
      have hnone : wtx.tx.vout[o.n]? = none := by
        unfold CWallet.output at hsome
        rw [hwtx, Option.bind_some, Bool.not_eq_true, Option.isSome_eq_false_iff, Option.isNone_iff_eq_none] at hsome
        exact hsome
      have hnew := ho.index wtx hwtx (List.getElem?_eq_none_iff.mp hnone)
      dsimp only
      rw [hnew]
      refine ⟨-4, m.insert o.hash wtx.tx, ?_, CWallet.tableRight_insert hm hwtx fun p hp _ => hp,
        fun h => absurd h hsome⟩
      unfold CWallet.newRounds
      rw [hnone]

/-- A query, for the table. -/
def queryStep (isMine : CScript → Nat) (w : AcyclicWallet) (m : DenomWtxes) (o : COutPoint) : Option DenomWtxes :=
  (w.queryRounds isMine m o).map Prod.snd

theorem queryStep_right {m' : DenomWtxes} (hm : w.Right isMine m) (ho : w.QueryOk isMine m o)
    (h : w.queryStep isMine m o = some m') : w.Right isMine m' := by
  obtain ⟨v, m'', hv, hright, -⟩ := w.queryRounds_ok hm ho
  rw [queryStep, hv, Option.map_some] at h
  exact Option.some.inj h ▸ hright

theorem tableRight_empty : w.Right isMine ∅ := by
  intro hash tx htx
  rw [AList.lookup_empty] at htx
  cases htx

/-- After any queries that are fine, the next one that is fine is answered rightly. -/
theorem queryRounds_run (isMine : CScript → Nat) (w : AcyclicWallet) (os : List COutPoint)
    (hsteps : Run.EveryStep (w.queryStep isMine) (w.QueryOk isMine) os ∅) :
    ∃ m, os.foldlM (w.queryStep isMine) ∅ = some m ∧
      ∀ o, w.QueryOk isMine m o → ∃ v m', w.queryRounds isMine m o = some (v, m') ∧
        ((w.output o).isSome = true → w.IsRounds isMine o v) := by
  have htaken : Run.EveryStep (w.queryStep isMine) (fun m o => ∃ m', w.queryStep isMine m o = some m') os ∅ := by
    refine Run.everyStep_of_everyStep (fun hm ho => ?_) w.queryStep_right os w.tableRight_empty hsteps
    obtain ⟨v, m', hv, -, -⟩ := w.queryRounds_ok hm ho
    exact ⟨m', by rw [queryStep, hv, Option.map_some]⟩
  obtain ⟨m, hrun⟩ := Run.exists_end os htaken
  have hright : w.Right isMine m :=
    (Run.along_of_everyStep id w.queryStep_right os w.tableRight_empty hsteps).last hrun
  refine ⟨m, hrun, fun o ho => ?_⟩
  obtain ⟨v, m', hv, -, hrounds⟩ := w.queryRounds_ok hright ho
  exact ⟨v, m', hv, hrounds⟩

/-- A wallet without long chains. -/
theorem cutRight_of_rank {left : Nat} (h : w.rank o.hash < left) : w.CutRight isMine left o := by
  intro p hp
  exact absurd (w.rank_behind hp) (by omega)

/-! ### A chain of 16 transactions -/

/-- Transaction `k` of the chain spends the next one; the last one has an output of no denomination. -/
def chainTx (k : Nat) : CWalletTx where
  tx := {
    nTime := 0
    vin := if k < 16 then [{ prevout := ⟨k + 2, 0⟩ }] else []
    vout := [{ nValue := if k < 16 then 10000100 else 5000000, scriptPubKey := [] }] }

def chainMap : StdMap Uint256 CWalletTx := (List.range 17).foldl (fun m k => m.insert (k + 1) (chainTx k)) ∅

theorem chainMap_keys : ∀ hash ∈ chainMap.keys, 0 < hash ∧ hash ≤ 17 := by decide

theorem lookup_chainMap (hk : k < 17) : chainMap.lookup (k + 1) = some (chainTx k) := by
  interval_cases k <;> rfl

theorem lookup_chainMap_eq {hash : Uint256} {wtx : CWalletTx} (h : chainMap.lookup hash = some wtx) :
    ∃ k : Nat, k < 17 ∧ hash = k + 1 ∧ wtx = chainTx k := by
  have hmem : hash ∈ chainMap.keys := AList.lookup_isSome.mp (by rw [h]; rfl)
  obtain ⟨hpos, hle⟩ := chainMap_keys hash hmem
  have hk : hash - 1 < 17 := (Nat.sub_lt hpos Nat.one_pos).trans_le hle
  have hhash : hash = hash - 1 + 1 := (Nat.sub_add_cancel hpos).symm
  rw [hhash, lookup_chainMap hk] at h
  exact ⟨hash - 1, hk, hhash, (Option.some.inj h).symm⟩

def chainWallet : AcyclicWallet where
  mapWallet := chainMap
  rank hash := 17 - hash
  rank_lt hash wtx h txin hmem _ := by
    obtain ⟨k, hk, rfl, rfl⟩ := lookup_chainMap_eq h
    unfold chainTx at hmem
    by_cases hlt : k < 16
    · dsimp only at hmem
      rw [if_pos hlt, List.mem_singleton] at hmem
      subst hmem
      exact Nat.sub_lt_sub_left (show k + 1 < 17 by omega) (Nat.lt_succ_self (k + 1))
    · dsimp only at hmem
      rw [if_neg hlt] at hmem
      exact absurd hmem List.not_mem_nil

def allMine (_ : CScript) : Nat := ISMINE_SPENDABLE

theorem fullyDenominated_chain (hk : k < 16) : chainWallet.FullyDenominated ⟨k + 1, 0⟩ := by
  have hlookup : chainWallet.mapWallet.lookup (k + 1) = some (chainTx k) := lookup_chainMap (by omega)
  have hout : chainWallet.output ⟨k + 1, 0⟩ = some { nValue := 10000100, scriptPubKey := [] } := by
    unfold CWallet.output
    rw [hlookup, Option.bind_some]
    simp [chainTx, hk]
  refine ⟨⟨_, hout, by decide, by decide⟩, chainTx k, hlookup, ?_⟩
  simp only [chainTx, if_pos hk]
  decide

/-- The only own input of a transaction of the chain. -/
theorem ownInput_chain (hk : k < 16) {o : COutPoint} (h : chainWallet.OwnInput allMine ⟨k + 1, 0⟩ o) :
    o = ⟨k + 2, 0⟩ := by
  obtain ⟨wtx, hwtx, txin, hmem, -, rfl⟩ := h
  have hlookup : chainWallet.mapWallet.lookup (k + 1) = some (chainTx k) := lookup_chainMap (by omega)
  obtain rfl := Option.some.inj (hlookup.symm.trans hwtx)
  simp only [chainTx, if_pos hk, List.mem_singleton] at hmem
  rw [hmem]

theorem mixStep_chain (hk : k < 15) : chainWallet.MixStep allMine ⟨k + 1, 0⟩ ⟨k + 2, 0⟩ := by
  have hnext := fullyDenominated_chain (k := k + 1) (by omega)
  have hlookup : chainWallet.mapWallet.lookup (k + 1) = some (chainTx k) := lookup_chainMap (by omega)
  have hmem : ({ prevout := ⟨k + 2, 0⟩ } : CTxIn) ∈ (chainTx k).tx.vin := by
    simp [chainTx, show k < 16 by omega]
  refine ⟨⟨fullyDenominated_chain (by omega), chainTx k, hlookup, _, hmem, ?_, rfl⟩, hnext.1⟩
  obtain ⟨⟨txout, hout, -⟩, -⟩ := hnext
  unfold CWallet.isMineIn
  rw [show chainWallet.output ⟨k + 2, 0⟩ = some txout from hout]
  rfl

theorem isShortest_chain {j : Nat} (h : k + j = 15) :
    IsShortest (chainWallet.MixStep allMine) ⟨k + 1, 0⟩ j := by
  induction j generalizing k with
  | zero =>
    obtain rfl : k = 15 := h
    refine isShortest_stop fun o hstep => ?_
    obtain rfl := ownInput_chain (by decide) hstep.1.2
    obtain ⟨txout, hout, -, hamount⟩ := hstep.2
    have hlast : chainWallet.output ⟨17, 0⟩ = some { nValue := 5000000, scriptPubKey := [] } := rfl
    obtain rfl := Option.some.inj (hlast.symm.trans hout)
    exact absurd hamount (by decide)
  | succ j ih =>
    have hnext := ih (k := k + 1) (by omega)
    refine isShortest_next (mixStep_chain (by omega)) hnext fun o hstep d hd => ?_
    obtain rfl := ownInput_chain (by omega) hstep.1.2
    exact (hnext.unique hd).le

/-- The first output has a depth of 15, and 16 is returned; after that query 16 is returned for the last output, of
depth 0, as well; a second query for an output that does not exist is an access outside of the outputs. -/
theorem queryRounds_chain :
    chainWallet.IsRounds allMine ⟨1, 0⟩ 15 ∧
      (chainWallet.queryRounds allMine ∅ ⟨1, 0⟩).map Prod.fst = some 16 ∧
      (chainWallet.queryRounds allMine ∅ ⟨16, 0⟩).map Prod.fst = some 0 ∧
      ((chainWallet.queryStep allMine ∅ ⟨1, 0⟩).bind fun m =>
        (chainWallet.queryRounds allMine m ⟨16, 0⟩).map Prod.fst) = some 16 ∧
      (chainWallet.queryStep allMine ∅ ⟨1, 5⟩).isSome = true ∧
      ((chainWallet.queryStep allMine ∅ ⟨1, 5⟩).bind fun m =>
        chainWallet.queryStep allMine m ⟨1, 5⟩).isNone = true := by
  refine ⟨?_, by decide, by decide, by decide, by decide, by decide⟩
  have hdepth := isShortest_chain (j := 15) (k := 0) rfl
  exact CWallet.isRounds_of_shortest (fullyDenominated_chain (by decide)).1 hdepth (by decide)

/-- A query for an output that does not exist, and then one for another output of the transaction. -/
theorem queryRounds_run_chain :
    ∃ m, [⟨3, 5⟩, ⟨3, 0⟩].foldlM (chainWallet.queryStep allMine) ∅ = some m ∧
      ∀ o, chainWallet.QueryOk allMine m o → ∃ v m', chainWallet.queryRounds allMine m o = some (v, m') ∧
        ((chainWallet.output o).isSome = true → chainWallet.IsRounds allMine o v) := by
  have hcut : ∀ n, chainWallet.CutRight allMine 15 ⟨3, n⟩ := fun n =>
    chainWallet.cutRight_of_rank (show 14 < 15 by decide)
  have hset : ∀ p, chainWallet.SetRounds allMine p := by
    intro p txout hout
    obtain ⟨wtx, hwtx, hmem⟩ := CWallet.output_eq_some hout
    obtain ⟨k, hk, -, rfl⟩ := lookup_chainMap_eq hwtx
    obtain rfl := List.mem_singleton.mp (List.mem_of_getElem? hmem)
    exact .inl rfl
  have hindex : ∀ wtx, chainWallet.mapWallet.lookup 3 = some wtx → ¬ wtx.tx.vout.length ≤ 0 := by
    intro wtx hwtx
    obtain rfl := Option.some.inj ((lookup_chainMap (by decide)).symm.trans hwtx)
    decide
  refine queryRounds_run allMine chainWallet [⟨3, 5⟩, ⟨3, 0⟩]
    ⟨⟨fun _ _ _ => rfl, hcut 5, fun p _ => .inl (hset p)⟩,
    fun m _ => ?_⟩
  exact ⟨⟨fun wtx hwtx hle => absurd hle (hindex wtx hwtx), hcut 0, fun p _ => .inl (hset p)⟩,
    fun _ _ => trivial⟩

end AcyclicWallet

end Sphinx
