import Mathlib.Algebra.Order.BigOperators.Group.List
import Sphinx.Equiv.ConnectBlock

/-!
# The coin age of a transaction

`GetCoinAge` adds up big numbers, but it forms the product of a value and an age in `int64_t`.

* `getCoinAge_eq`: the coin age as the code computes it, from the inputs it counts;
* `getCoinAge_exact_iff`: it is the mathematical coin age, and no product overflows, exactly when every
  product of a value and an age is below 2⁶³ and the coin age below 2⁶⁴.
-/

namespace Sphinx

variable (env : Env) (mapBlockIndex : BlockMap) (txdb : CTxDB) (pindexPrev : Option Uint256) (tx : CTransaction)
variable {inputs : List (CAmount × Int)}

/-- The value and the age of an input, if `GetCoinAge` counts it. -/
def countedInput (prevout : COutPoint) : Option (CAmount × Int) :=
  match txdb.readTxIndex prevout.hash with
  | none => none
  | some txindex =>
    match env.readTxFromDisk txindex.pos with
    | none => none
    | some txPrev =>
      match txPrev.vout[prevout.n]? with
      | none => none
      | some txout =>
        if (isConfirmedInNPrevBlocks mapBlockIndex txindex pindexPrev (180 - 1)).isSome then none
        else some (txout.nValue, (tx.nTime : Int) - txPrev.nTime)

/-- The inputs that `GetCoinAge` counts; none of a coinbase. -/
def countedInputs : List (CAmount × Int) :=
  if tx.isCoinBase then [] else tx.prevouts.filterMap (countedInput env mapBlockIndex txdb pindexPrev tx)

/-- The mathematical sum, in cent-seconds. -/
def centSeconds (inputs : List (CAmount × Int)) : Int := (inputs.map fun e => e.1 * e.2 / cent).sum

/-- The mathematical coin age, in coin-days. -/
def coinDays (inputs : List (CAmount × Int)) : Int := centSeconds inputs * cent / coin / (24 * 60 * 60)

/-- The sum as the code forms it. -/
def wrappedCentSeconds (inputs : List (CAmount × Int)) : Int :=
  (inputs.map fun e => (toInt64 (e.1 * e.2)).tdiv cent).sum

variable {env mapBlockIndex txdb pindexPrev tx}

theorem addCoinAge_ok {acc acc' : Int} {o : COutPoint}
    (h : addCoinAge env mapBlockIndex txdb pindexPrev tx acc o = .ok acc') :
    acc' = acc + wrappedCentSeconds (countedInput env mapBlockIndex txdb pindexPrev tx o).toList ∧
      ∀ e ∈ countedInput env mapBlockIndex txdb pindexPrev tx o, 0 ≤ e.2 := by
  have hskip : (.ok acc : Except Reject Int) = .ok acc' →
      acc' = acc + wrappedCentSeconds (none : Option (CAmount × Int)).toList ∧
        ∀ e ∈ (none : Option (CAmount × Int)), 0 ≤ e.2 :=
    fun hacc => ⟨(Except.ok.inj hacc).symm.trans (add_zero acc).symm, fun e he => by cases he⟩
  unfold addCoinAge at h
  unfold countedInput
  cases hindex : txdb.readTxIndex o.hash with
  | none =>
    simp only [hindex] at h ⊢
    exact hskip h
  | some txindex =>
    cases htx : env.readTxFromDisk txindex.pos with
    | none =>
      simp only [hindex, htx] at h ⊢
      exact hskip h
    | some txPrev =>
      cases hout : txPrev.vout[o.n]? with
      | none =>
        simp only [hindex, htx, hout] at h ⊢
        exact hskip h
      | some txout =>
        simp only [hindex, htx, hout] at h ⊢
        by_cases htime : tx.nTime < txPrev.nTime
        · rw [if_pos htime] at h
          cases h
        rw [if_neg htime] at h
        by_cases hdepth : (isConfirmedInNPrevBlocks mapBlockIndex txindex pindexPrev (180 - 1)).isSome = true
        · rw [if_pos hdepth] at h ⊢
          exact hskip h
        · rw [if_neg hdepth] at h ⊢
          obtain rfl := Except.ok.inj h
          refine ⟨by simp [wrappedCentSeconds], ?_⟩
          rintro e ⟨⟩
          simp only
          omega

/-- **The coin age that the code computes.**  The inputs it counts are no older than the transaction. -/
theorem getCoinAge_eq {n : Nat} (h : getCoinAge env mapBlockIndex txdb pindexPrev tx = .ok n) :
    n = (((wrappedCentSeconds (countedInputs env mapBlockIndex txdb pindexPrev tx) * cent).tdiv coin).tdiv
        (24 * 60 * 60)).natAbs % 2 ^ 64 ∧
      ∀ e ∈ countedInputs env mapBlockIndex txdb pindexPrev tx, 0 ≤ e.2 := by
  unfold getCoinAge at h
  unfold countedInputs
  by_cases hcb : tx.isCoinBase = true
  · rw [if_pos hcb] at h ⊢
    exact ⟨(Except.ok.inj h).symm, by simp⟩
  rw [if_neg hcb] at h ⊢
  simp only [exceptBind_ok] at h
  obtain ⟨bnCentSecond, hloop, h⟩ := h
  have hinv := Loop.foldlM_inv (fun (done : List COutPoint) (acc : Int) =>
    acc = wrappedCentSeconds (done.filterMap (countedInput env mapBlockIndex txdb pindexPrev tx)) ∧
      ∀ e ∈ done.filterMap (countedInput env mapBlockIndex txdb pindexPrev tx), 0 ≤ e.2) hloop
    ⟨rfl, by simp⟩ ?_
  · obtain ⟨rfl, hage⟩ := hinv
    exact ⟨(Except.ok.inj h).symm, hage⟩
  · rintro done o rest acc acc' - ⟨hacc, hage⟩ hround
    obtain ⟨hacc', hage'⟩ := addCoinAge_ok hround
    rw [List.filterMap_append, List.filterMap_cons, List.filterMap_nil]
    cases hcount : countedInput env mapBlockIndex txdb pindexPrev tx o with
    | none =>
      rw [hcount] at hacc'
      simp only [List.append_nil]
      refine ⟨?_, hage⟩
      rw [hacc', hacc]
      exact add_zero _
    | some e =>
      rw [hcount] at hacc' hage'
      refine ⟨?_, fun e' he' => ?_⟩
      · rw [hacc', hacc]
        simp [wrappedCentSeconds]
      · rcases List.mem_append.mp he' with he' | he'
        · exact hage e' he'
        · rw [List.mem_singleton] at he'
          exact hage' e' (he' ▸ rfl)

/-! ### Without overflow -/

theorem toInt64_eq_self_iff {x : Int} (h : 0 ≤ x) : toInt64 x = x ↔ x < 2 ^ 63 := by
  constructor
  · intro hx
    rw [toInt64] at hx
    omega
  · exact toInt64_of_nonneg h

theorem centSeconds_nonneg (h : ∀ e ∈ inputs, 0 ≤ e.1 * e.2) :
    0 ≤ centSeconds inputs := by
  refine List.sum_nonneg fun x hx => ?_
  obtain ⟨e, he, rfl⟩ := List.mem_map.mp hx
  exact Int.ediv_nonneg (h e he) (by decide)

theorem wrappedCentSeconds_eq (h : ∀ e ∈ inputs, 0 ≤ e.1 * e.2)
    (hwrap : ∀ e ∈ inputs, toInt64 (e.1 * e.2) = e.1 * e.2) :
    wrappedCentSeconds inputs = centSeconds inputs := by
  rw [wrappedCentSeconds, centSeconds]
  congr 1
  refine List.map_congr_left fun e he => ?_
  rw [hwrap e he, Int.tdiv_eq_ediv_of_nonneg (h e he)]

theorem tdiv_eq_coinDays (h : ∀ e ∈ inputs, 0 ≤ e.1 * e.2) :
    ((centSeconds inputs * cent).tdiv coin).tdiv (24 * 60 * 60) = coinDays inputs ∧ 0 ≤ coinDays inputs := by
  have h0 : 0 ≤ centSeconds inputs * cent := mul_nonneg (centSeconds_nonneg h) (by decide)
  have h1 : 0 ≤ centSeconds inputs * cent / coin := Int.ediv_nonneg h0 (by decide)
  rw [Int.tdiv_eq_ediv_of_nonneg h0, Int.tdiv_eq_ediv_of_nonneg h1]
  exact ⟨rfl, Int.ediv_nonneg h1 (by decide)⟩

/-- **`GetCoinAge` is exact**, without an overflow of a product, exactly when each counted value times its age is
below 2⁶³ and the coin age fits into 64 bits. -/
theorem getCoinAge_exact_iff {n : Nat}
    (hrange : ∀ e ∈ countedInputs env mapBlockIndex txdb pindexPrev tx, moneyRange e.1 = true)
    (h : getCoinAge env mapBlockIndex txdb pindexPrev tx = .ok n) :
    ((n : Int) = coinDays (countedInputs env mapBlockIndex txdb pindexPrev tx) ∧
        ∀ e ∈ countedInputs env mapBlockIndex txdb pindexPrev tx, toInt64 (e.1 * e.2) = e.1 * e.2) ↔
      (∀ e ∈ countedInputs env mapBlockIndex txdb pindexPrev tx, e.1 * e.2 < 2 ^ 63) ∧
        coinDays (countedInputs env mapBlockIndex txdb pindexPrev tx) < 2 ^ 64 := by
  obtain ⟨hn, hage⟩ := getCoinAge_eq h
  generalize countedInputs env mapBlockIndex txdb pindexPrev tx = inputs at *
  have hnonneg : ∀ e ∈ inputs, 0 ≤ e.1 * e.2 := fun e he => by
    have hvalue := hrange e he
    simp only [moneyRange, Bool.and_eq_true, decide_eq_true_eq] at hvalue
    exact mul_nonneg hvalue.1 (hage e he)
  obtain ⟨hdays, hpos⟩ := tdiv_eq_coinDays hnonneg
  constructor
  · rintro ⟨hexact, hwrap⟩
    refine ⟨fun e he => (toInt64_eq_self_iff (hnonneg e he)).mp (hwrap e he), ?_⟩
    rw [← hexact, hn]
    exact_mod_cast Nat.mod_lt _ (by positivity)
  · rintro ⟨hsmall, hfits⟩
    have hwrap : ∀ e ∈ inputs, toInt64 (e.1 * e.2) = e.1 * e.2 := fun e he =>
      (toInt64_eq_self_iff (hnonneg e he)).mpr (hsmall e he)
    refine ⟨?_, hwrap⟩
    rw [hn, wrappedCentSeconds_eq hnonneg hwrap, hdays]
    omega

/-! ### Sample ages -/

def richTx : CTransaction :=
  { nTime := 1000, vin := [⟨⟨7, 0⟩, [], uintMax⟩],
      vout := [⟨maxMoney, [1], -10⟩, ⟨5 * coin, [1], -10⟩] }

def richBlock : CBlock := { hashPrevBlock := 0, nTime := 1000, vtx := [richTx] }

def richEnv : Env :=
  Env.permissive sampleTxHash sampleBlockHash (fun _ _ _ _ _ _ => true) (BlockFiles.ofBlocks [richBlock])

def richDb : CTxDB :=
  ⟨Function.update (fun _ => none) (.tx 2000)
    (some (.txIndex (CTxIndex.mk' (.pos 1 8 (8 + richBlock.txOffset 0)) 2))),
    none⟩

def farTip : CBlockIndex := { hashBlock := 300, nFile := 9, nBlockPos := 8, nHeight := 1000 }

def farMap : BlockMap := fun h => if h = 300 then some farTip else none

def agedTx (n : Nat) : CTransaction :=
  { nTime := 10001000, vin := [⟨⟨2000, n⟩, [], uintMax⟩], vout := [⟨0, [], -10⟩, ⟨coin, [1], -10⟩] }

theorem getCoinAge_small :
    ((578 : Nat) : Int) = coinDays (countedInputs richEnv farMap richDb (some 300) (agedTx 1)) ∧
      ∀ e ∈ countedInputs richEnv farMap richDb (some 300) (agedTx 1), toInt64 (e.1 * e.2) = e.1 * e.2 :=
  (getCoinAge_exact_iff (n := 578) (by decide) (by decide)).mpr (by decide)

theorem getCoinAge_overflow :
    (∀ e ∈ countedInputs richEnv farMap richDb (some 300) (agedTx 0), moneyRange e.1 = true) ∧
      getCoinAge richEnv farMap richDb (some 300) (agedTx 0) = .ok 880236 ∧
      coinDays (countedInputs richEnv farMap richDb (some 300) (agedTx 0)) = 2430555555 := by
  decide

end Sphinx
