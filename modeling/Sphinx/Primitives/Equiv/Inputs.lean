import Sphinx.Primitives.Inputs
import Sphinx.Util.Loop

/-!
# The inputs of a transaction, on the transaction index as a map

The transaction index is read here as a map `M : Uint256 → Option CTxIndex`; `overlay q M` is `M`
with the queued changes `q` of a block on top.  Marking a list of outpoints as spent at `p` is
`setSpentAll os p M`, and all three operations on inputs are described by it:

* `fetchInputs_ok`: every previous transaction is fetched together with its entry in the overlay;
* `connectInputs_ok`: a successful `ConnectInputs` found every output unspent and turns the overlay
  into `setSpentAll tx.prevouts posThisTx` of itself;
* `disconnectInputs_ok`, `disconnectInputs_total`: `DisconnectInputs` is
  `setSpentAll tx.prevouts null` followed by the removal of the transaction's own entry.
-/

namespace Sphinx

open Function (update update_of_ne)

variable {fBlock fMiner fValidateSig : Bool} {h : Uint256} {os : List COutPoint} {p : CDiskTxPos}
  {env : Env} {q q' : StdMap Uint256 CTxIndex} {inputs : MapPrevTx} {o : COutPoint} {tx : CTransaction}
  {v : CAmount} {mapBlockIndex : BlockMap} {pindexBlock : Option Uint256} {ctx : Ctx} {flags : Nat}
variable {inputs' : MapPrevTx}

/-- The transaction index as a map. -/
abbrev TxIndexMap := Uint256 → Option CTxIndex

/-- The index with queued changes on top. -/
def overlay (q : StdMap Uint256 CTxIndex) (M : TxIndexMap) : TxIndexMap := fun h =>
  match q.lookup h with
  | some txindex => some txindex
  | none => M h

/-- Every outpoint of `os` marked as spent at `p`. -/
def setSpentAll (os : List COutPoint) (p : CDiskTxPos) (M : TxIndexMap) : TxIndexMap := fun h =>
  (M h).map fun txindex => { txindex with
    vSpent := txindex.vSpent.mapIdx fun n q => if (⟨h, n⟩ : COutPoint) ∈ os then p else q }

/-- The output `o` exists and is not spent. -/
def IsUnspent (M : TxIndexMap) (o : COutPoint) : Prop :=
  ∃ txindex, M o.hash = some txindex ∧ txindex.vSpent[o.n]? = some .null

/-! ### Overlay and spent pointers -/

theorem overlay_empty (M : TxIndexMap) : overlay ∅ M = M := by
  funext h; simp [overlay]

theorem overlay_insert (q : StdMap Uint256 CTxIndex) (M : TxIndexMap) (h : Uint256)
    (txindex : CTxIndex) :
    overlay (q.insert h txindex) M = update (overlay q M) h (some txindex) := by
  funext k
  by_cases hk : k = h
  · subst hk; simp [overlay]
  · simp [overlay, AList.lookup_insert_ne hk, update_of_ne hk]

theorem findTxIndex_staged (txdb : CTxDB) (q : StdMap Uint256 CTxIndex)
    (hstaged : (fBlock || fMiner) = true) (h : Uint256) :
    findTxIndex txdb q fBlock fMiner h = overlay q txdb.txIndexMap h := by
  simp only [findTxIndex, overlay, hstaged, if_true]
  rfl

theorem findTxIndex_block (txdb : CTxDB) (q : StdMap Uint256 CTxIndex) (fMiner : Bool)
    (h : Uint256) : findTxIndex txdb q true fMiner h = overlay q txdb.txIndexMap h :=
  findTxIndex_staged txdb q (Bool.true_or fMiner) h

@[simp] theorem mapIdx_id {α : Type} (l : List α) : l.mapIdx (fun _ a => a) = l := by
  apply List.ext_getElem?
  intro n
  simp

theorem setSpentAll_nil (p : CDiskTxPos) (M : TxIndexMap) : setSpentAll [] p M = M := by
  funext h
  simp [setSpentAll]

variable {M : TxIndexMap}

theorem setSpentAll_getElem? {txindex : CTxIndex} (hM : M h = some txindex)
    (os : List COutPoint) (p : CDiskTxPos) (n : Nat) :
    ∃ txindex', setSpentAll os p M h = some txindex' ∧ txindex'.pos = txindex.pos ∧
      txindex'.vSpent.length = txindex.vSpent.length ∧
      txindex'.vSpent[n]? =
        txindex.vSpent[n]?.map fun q => if (⟨h, n⟩ : COutPoint) ∈ os then p else q := by
  refine ⟨{ txindex with
    vSpent := txindex.vSpent.mapIdx fun n q => if (⟨h, n⟩ : COutPoint) ∈ os then p else q },
    by rw [setSpentAll, hM]; rfl, rfl, by simp, ?_⟩
  simp [List.getElem?_mapIdx]

theorem setSpentAll_eq_none :
    setSpentAll os p M h = none ↔ M h = none := by
  simp [setSpentAll]

/-- Marking one more outpoint changes the entry of its transaction only. -/
theorem setSpentAll_append (os : List COutPoint) (o : COutPoint) (p : CDiskTxPos)
    (M : TxIndexMap) :
    setSpentAll (os ++ [o]) p M = update (setSpentAll os p M) o.hash
      ((setSpentAll os p M o.hash).map fun txindex => txindex.setSpent o.n p) := by
  funext h
  by_cases hh : h = o.hash
  · subst hh
    rw [Function.update_self]
    cases hM : M o.hash with
    | none => simp [setSpentAll, hM]
    | some txindex =>
      simp only [setSpentAll, hM, Option.map_some, CTxIndex.setSpent, Option.some.injEq,
        CTxIndex.mk.injEq, true_and]
      apply List.ext_getElem?
      intro n
      rw [List.getElem?_set, List.getElem?_mapIdx, List.getElem?_mapIdx, List.length_mapIdx]
      by_cases hn : o.n = n
      · subst hn
        by_cases hlt : o.n < txindex.vSpent.length
        · simp [hlt]
        · simp [hlt]
      · have hne : (⟨o.hash, n⟩ : COutPoint) ≠ o := by
          intro h; exact hn (by rw [← h])
        simp [hn, hne]
  · rw [update_of_ne hh]
    have hne : ∀ n, (⟨h, n⟩ : COutPoint) ≠ o := by
      rintro n rfl; exact hh rfl
    simp [setSpentAll, hne]

/-- Setting spent pointers and then resetting them gives the index back, when they were null. -/
theorem setSpentAll_null_setSpentAll (hos : ∀ o ∈ os, IsUnspent M o) :
    setSpentAll os .null (setSpentAll os p M) = M := by
  funext h
  cases hM : M h with
  | none => simp [setSpentAll, hM]
  | some txindex =>
    simp only [setSpentAll, hM, Option.map_some, Option.some.injEq]
    rcases txindex with ⟨pos, vSpent⟩
    simp only [CTxIndex.mk.injEq, true_and]
    apply List.ext_getElem?
    intro n
    rw [List.getElem?_mapIdx, List.getElem?_mapIdx]
    by_cases ho : (⟨h, n⟩ : COutPoint) ∈ os
    · obtain ⟨txindex', hM', hn⟩ := hos _ ho
      rw [hM] at hM'
      obtain rfl := Option.some.inj hM'
      simp only at hn
      simp [ho, hn]
    · simp [ho]

theorem setSpentAll_update_of_ne {v : Option CTxIndex} (hos : ∀ o ∈ os, o.hash ≠ h) :
    setSpentAll os p (update M h v) = update (setSpentAll os p M) h v := by
  funext k
  by_cases hk : k = h
  · subst hk
    have hne : ∀ n, (⟨k, n⟩ : COutPoint) ∉ os := fun n hn => hos _ hn rfl
    simp [setSpentAll, hne]
  · simp [setSpentAll, update_of_ne hk]

/-! ### Fetching -/

/-- The previous transaction an index entry leads to. -/
def loadPrev (env : Env) (pool : CTxMemPool) (h : Uint256) (txindex : CTxIndex) :
    Option CTransaction :=
  if txindex.pos = CDiskTxPos.memoryPool then pool.lookup h else env.readTxFromDisk txindex.pos

/-- What one entry of the fetched inputs is: the index entry the node has for the hash, and the
transaction it leads to; or, for the memory pool only, an unindexed pool transaction. -/
def IsPrev (env : Env) (txdb : CTxDB) (pool : CTxMemPool) (q : StdMap Uint256 CTxIndex)
    (fBlock fMiner : Bool) (h : Uint256) (prev : CTxIndex × CTransaction) : Prop :=
  (findTxIndex txdb q fBlock fMiner h = some prev.1 ∧ loadPrev env pool h prev.1 = some prev.2) ∨
    (findTxIndex txdb q fBlock fMiner h = none ∧ fBlock = false ∧ fMiner = false ∧
      pool.lookup h = some prev.2 ∧ prev.1 = CTxIndex.mk' .null prev.2.vout.length)

theorem fetchInput_ok {txdb : CTxDB} {pool : CTxMemPool}
    (h : fetchInput env txdb pool q fBlock fMiner inputs o = .ok inputs') :
    ((inputs.lookup o.hash).isSome = true ∧ inputs' = inputs) ∨
      ∃ prev, inputs' = inputs.insert o.hash prev ∧
        IsPrev env txdb pool q fBlock fMiner o.hash prev := by
  unfold fetchInput at h
  by_cases hin : (inputs.lookup o.hash).isSome = true
  · rw [if_pos hin] at h
    exact .inl ⟨hin, (Except.ok.inj h).symm⟩
  rw [if_neg hin] at h
  right
  cases hf : findTxIndex txdb q fBlock fMiner o.hash with
  | none =>
    -- without an index entry only the pool is left, and only outside blocks
    simp only [hf] at h
    by_cases hm : fMiner = true
    · rw [if_pos hm] at h; cases h
    by_cases hb : fBlock = true
    · rw [if_neg hm, if_pos hb] at h; cases h
    rw [if_neg hm, if_neg hb] at h
    cases hp : pool.lookup o.hash with
    | none => rw [hp] at h; cases h
    | some txPrev =>
      rw [hp] at h
      exact ⟨_, (Except.ok.inj h).symm, .inr ⟨hf, by simpa using hb, by simpa using hm, hp, rfl⟩⟩
  | some txindex =>
    simp only [hf] at h
    have hload : ∀ txPrev, loadPrev env pool o.hash txindex = some txPrev →
        inputs' = inputs.insert o.hash (txindex, txPrev) →
        ∃ prev, inputs' = inputs.insert o.hash prev ∧
          IsPrev env txdb pool q fBlock fMiner o.hash prev :=
      fun txPrev hl heq => ⟨_, heq, .inl ⟨hf, hl⟩⟩
    by_cases hpos : txindex.pos = CDiskTxPos.memoryPool
    · rw [if_pos hpos] at h
      cases hp : pool.lookup o.hash with
      | none => rw [hp] at h; cases h
      | some txPrev =>
        rw [hp] at h
        exact hload txPrev (by rw [loadPrev, if_pos hpos, hp]) (Except.ok.inj h).symm
    · rw [if_neg hpos] at h
      cases hp : env.readTxFromDisk txindex.pos with
      | none => rw [hp] at h; cases h
      | some txPrev =>
        rw [hp] at h
        exact hload txPrev (by rw [loadPrev, if_neg hpos, hp]) (Except.ok.inj h).symm

/-- **What `FetchInputs` returns**: only previous transactions as the node has them, one for every
input, and the outputs named exist. -/
theorem fetchInputs_ok {txdb : CTxDB} {pool : CTxMemPool} (hcb : tx.isCoinBase = false)
    (h : fetchInputs env txdb pool q fBlock fMiner tx = .ok inputs) :
    (∀ k prev, inputs.lookup k = some prev → IsPrev env txdb pool q fBlock fMiner k prev) ∧
      ∀ o ∈ tx.prevouts, ∃ txindex txPrev, inputs.lookup o.hash = some (txindex, txPrev) ∧
        o.n < txPrev.vout.length ∧ o.n < txindex.vSpent.length := by
  unfold fetchInputs at h
  simp only [hcb, Bool.false_eq_true, if_false, exceptBind_ok] at h
  obtain ⟨inputs', hfold, h⟩ := h
  split_ifs at h with hall
  obtain rfl : inputs' = inputs := Except.ok.inj h
  have hprev : ∀ k prev, inputs'.lookup k = some prev →
      IsPrev env txdb pool q fBlock fMiner k prev := by
    refine Loop.foldlM_inv (fun _ (inputs : MapPrevTx) => ∀ k prev, inputs.lookup k = some prev →
      IsPrev env txdb pool q fBlock fMiner k prev) hfold (by simp) ?_
    intro _ o _ st st' _ hst hstep k prev hk
    obtain ⟨-, rfl⟩ | ⟨prev', rfl, hprev'⟩ := fetchInput_ok hstep
    · exact hst k prev hk
    · by_cases hko : k = o.hash
      · subst hko
        rw [AList.lookup_insert] at hk
        rw [← Option.some.inj hk]
        exact hprev'
      · rw [AList.lookup_insert_ne hko] at hk
        exact hst k prev hk
  refine ⟨hprev, fun o ho => ?_⟩
  have hr := List.all_eq_true.mp hall o ho
  unfold checkPrevoutRange at hr
  split at hr
  · cases hr
  · next txindex txPrev hl =>
    simp only [Bool.and_eq_true, decide_eq_true_eq] at hr
    exact ⟨txindex, txPrev, hl, hr.1, hr.2⟩

/-! ### Values -/

/-- The value of the output an input names, as fetched. -/
def inputValue (inputs : MapPrevTx) (o : COutPoint) : CAmount :=
  match getOutputFor inputs o with
  | .ok txout => txout.nValue
  | .error _ => 0

/-- The total value of the outputs a transaction spends, as fetched. -/
def inputsValue (inputs : MapPrevTx) (os : List COutPoint) : CAmount :=
  (os.map (inputValue inputs)).sum

theorem inputsValue_append (inputs : MapPrevTx) (os : List COutPoint) (o : COutPoint) :
    inputsValue inputs (os ++ [o]) = inputsValue inputs os + inputValue inputs o := by
  simp [inputsValue]

theorem addValueIn_ok {acc : CAmount} (h : addValueIn inputs acc o = .ok v) :
    v = acc + inputValue inputs o := by
  simp only [addValueIn, exceptBind_ok] at h
  obtain ⟨txout, ho, h⟩ := h
  rw [inputValue, ho]
  exact (Except.ok.inj h).symm

theorem getValueIn_eq (hcb : tx.isCoinBase = false) (h : getValueIn tx inputs = .ok v) :
    v = inputsValue inputs tx.prevouts := by
  simp only [getValueIn, hcb, Bool.false_eq_true, if_false] at h
  refine Loop.foldlM_inv (fun done v => v = inputsValue inputs done) h rfl ?_
  intro done o _ st st' _ hst hstep
  rw [addValueIn_ok hstep, hst, inputsValue_append]

theorem checkInput_ok {acc : CAmount} (h : checkInput mapBlockIndex pindexBlock tx inputs acc o = .ok v) :
    v = acc + inputValue inputs o ∧
      ∃ txindex txPrev, inputs.lookup o.hash = some (txindex, txPrev) ∧
        o.n < txindex.vSpent.length := by
  unfold checkInput at h
  cases hl : inputs.lookup o.hash with
  | none => rw [hl] at h; cases h
  | some prev =>
    obtain ⟨txindex, txPrev⟩ := prev
    simp only [hl, exceptBind_ok, rejectIf_eq_ok, Bool.or_eq_false_iff, decide_eq_false_iff_not,
      not_le] at h
    obtain ⟨-, ⟨-, hn⟩, -, -, -, -, txout, ho, -, -, h⟩ := h
    refine ⟨?_, txindex, txPrev, rfl, hn⟩
    rw [inputValue, ho]
    exact (Except.ok.inj h).symm

theorem checkInputs_ok
    (h : tx.prevouts.foldlM (checkInput mapBlockIndex pindexBlock tx inputs) 0 = .ok v) :
    v = inputsValue inputs tx.prevouts ∧
      ∀ o ∈ tx.prevouts, ∃ txindex txPrev, inputs.lookup o.hash = some (txindex, txPrev) ∧
        o.n < txindex.vSpent.length := by
  refine Loop.foldlM_inv (fun done v => v = inputsValue inputs done ∧
    ∀ o ∈ done, ∃ txindex txPrev, inputs.lookup o.hash = some (txindex, txPrev) ∧
      o.n < txindex.vSpent.length) h ⟨rfl, by simp⟩ ?_
  rintro done o _ st st' _ ⟨hst, hdone⟩ hstep
  obtain ⟨hv, hfound⟩ := checkInput_ok hstep
  refine ⟨by rw [hv, hst, inputsValue_append], fun o' ho' => ?_⟩
  rcases List.mem_append.mp ho' with ho' | ho'
  · exact hdone o' ho'
  · rw [List.mem_singleton.mp ho']
    exact hfound

/-! ### Connecting -/

/-- The index entries of the fetched inputs, as a map. -/
def indexOf (inputs : MapPrevTx) : TxIndexMap := fun h => (inputs.lookup h).map Prod.fst

theorem indexOf_insert (inputs : MapPrevTx) (h : Uint256) (prev : CTxIndex × CTransaction) :
    indexOf (inputs.insert h prev) = update (indexOf inputs) h (some prev.1) := by
  funext k
  by_cases hk : k = h
  · subst hk; simp [indexOf]
  · simp [indexOf, AList.lookup_insert_ne hk, update_of_ne hk]

theorem setSpentAll_congr {M' : TxIndexMap} (hM : M h = M' h) :
    setSpentAll os p M h = setSpentAll os p M' h := by
  simp only [setSpentAll, hM]

/-- One round of the spending loop: the entry had a null pointer for the output, and both the
fetched entry and the queued one get the new pointer. -/
theorem spendInput_ok {i : Nat}
    (h : spendInput env ctx tx p fBlock fMiner flags fValidateSig (inputs, q) (o, i) = .ok (inputs', q')) :
    ∃ txindex txPrev, inputs.lookup o.hash = some (txindex, txPrev) ∧
      txindex.vSpent.getD o.n .null = .null ∧
      inputs' = inputs.insert o.hash (txindex.setSpent o.n p, txPrev) ∧
      q' = if fBlock || fMiner then q.insert o.hash (txindex.setSpent o.n p) else q := by
  unfold spendInput at h
  cases hl : inputs.lookup o.hash with
  | none => simp only [hl] at h; cases h
  | some prev =>
    obtain ⟨txindex, txPrev⟩ := prev
    simp only [hl, exceptBind_ok, rejectIf_eq_ok, Bool.not_eq_false', CDiskTxPos.isNull_iff] at h
    obtain ⟨-, hnull, -, -, h⟩ := h
    obtain ⟨rfl, rfl⟩ := Prod.mk.inj (Except.ok.inj h)
    exact ⟨txindex, txPrev, rfl, hnull, rfl, rfl⟩

theorem spendInputs_ok (hp : p ≠ .null)
    (hrange : ∀ o ∈ tx.prevouts, ∃ txindex txPrev, inputs.lookup o.hash = some (txindex, txPrev) ∧
        o.n < txindex.vSpent.length)
    (hsync : (fBlock || fMiner) = true → ∀ k txindex, indexOf inputs k = some txindex →
        overlay q M k = some txindex)
    (h : tx.prevouts.zipIdx.foldlM (spendInput env ctx tx p fBlock fMiner flags fValidateSig) (inputs, q) =
        .ok (inputs', q')) :
    (∀ o ∈ tx.prevouts, IsUnspent (indexOf inputs) o) ∧
      ((fBlock || fMiner) = true → overlay q' M = setSpentAll tx.prevouts p (overlay q M)) := by
  have hinv := Loop.foldlM_inv (fun (done : List (COutPoint × Nat))
      (st : MapPrevTx × StdMap Uint256 CTxIndex) =>
    indexOf st.1 = setSpentAll (done.map Prod.fst) p (indexOf inputs) ∧
      (∀ o ∈ done.map Prod.fst, IsUnspent (indexOf inputs) o) ∧
      ((fBlock || fMiner) = true → overlay st.2 M = setSpentAll (done.map Prod.fst) p (overlay q M)))
    h ⟨(setSpentAll_nil _ _).symm, by simp, fun _ => (setSpentAll_nil _ _).symm⟩ ?_
  · rw [List.zipIdx_map_fst] at hinv
    exact hinv.2
  rintro done ⟨o, i⟩ rest ⟨inputs1, q1⟩ ⟨inputs2, q2⟩ hlist ⟨hidx, hunspent, hover⟩ hstep
  obtain ⟨txindex, txPrev, hl, hnull, rfl, rfl⟩ := spendInput_ok hstep
  have ho : o ∈ tx.prevouts := by
    rw [← List.zipIdx_map_fst 0 tx.prevouts, hlist]
    simp
  obtain ⟨txindex0, txPrev0, hl0, hn⟩ := hrange o ho
  have h0 : indexOf inputs o.hash = some txindex0 := by rw [indexOf, hl0]; rfl
  have h1 : setSpentAll (done.map Prod.fst) p (indexOf inputs) o.hash = some txindex := by
    rw [← hidx, indexOf, hl]; rfl
  -- the round found a null pointer, so the output was not among those spent before
  have hspent : IsUnspent (indexOf inputs) o := by
    obtain ⟨txindex', h1', -, hlen, hget⟩ :=
      setSpentAll_getElem? h0 (done.map Prod.fst) p o.n
    rw [h1] at h1'
    obtain rfl := Option.some.inj h1'
    refine ⟨txindex0, h0, ?_⟩
    rw [List.getD_eq_getElem?_getD, hget, List.getElem?_eq_getElem hn] at hnull
    rw [List.getElem?_eq_getElem hn]
    by_cases hmem : o ∈ done.map Prod.fst
    · simp only [Option.map_some, hmem, if_true, Option.getD_some] at hnull
      exact absurd hnull hp
    · simp only [Option.map_some, hmem, if_false, Option.getD_some] at hnull
      rw [hnull]
  rw [List.map_append, List.map_singleton]
  refine ⟨?_, ?_, fun hb => ?_⟩
  · rw [indexOf_insert, hidx, setSpentAll_append, h1]; rfl
  · intro o' ho'
    rcases List.mem_append.mp ho' with ho' | ho'
    · exact hunspent o' ho'
    · rw [List.mem_singleton.mp ho']; exact hspent
  · have h2 : setSpentAll (done.map Prod.fst) p (overlay q M) o.hash = some txindex := by
      rw [setSpentAll_congr ((hsync hb _ _ h0).trans h0.symm), h1]
    simp only [hb, if_true]
    rw [overlay_insert, hover hb, setSpentAll_append, h2]; rfl

theorem checkFee_ok {nValueIn : CAmount} (h : checkFee tx nValueIn = .ok ())
    (hcs : tx.isCoinStake = false) : tx.valueOut ≤ nValueIn := by
  simp only [checkFee, hcs, Bool.false_eq_true, if_false, exceptBind_ok, rejectIf_eq_ok,
    decide_eq_false_iff_not, not_lt] at h
  obtain ⟨v, hv, -, hle, -⟩ := h
  rw [← CTransaction.getValueOut_eq hv]
  exact hle

/-- **What a successful `ConnectInputs` has checked and done**: every output it spends was unspent;
unless the transaction is a coinstake it pays out at most what it takes in; and, for a block or a
template, the overlay has the outputs marked as spent. -/
theorem connectInputs_ok (hcb : tx.isCoinBase = false) (hp : p ≠ .null)
    (hsync : (fBlock || fMiner) = true → ∀ k txindex, indexOf inputs k = some txindex →
        overlay q M k = some txindex)
    (h : connectInputs env ctx mapBlockIndex tx inputs q p pindexBlock fBlock fMiner flags fValidateSig = .ok q') :
    (∀ o ∈ tx.prevouts, IsUnspent (indexOf inputs) o) ∧
      (tx.isCoinStake = false → tx.valueOut ≤ inputsValue inputs tx.prevouts) ∧
      ((fBlock || fMiner) = true → overlay q' M = setSpentAll tx.prevouts p (overlay q M)) := by
  simp only [connectInputs, hcb, Bool.false_eq_true, if_false, exceptBind_ok] at h
  obtain ⟨nValueIn, hcheck, ⟨inputs', q1⟩, hspend, ⟨⟩, hfee, h⟩ := h
  obtain rfl : q1 = q' := Except.ok.inj h
  obtain ⟨rfl, hrange⟩ := checkInputs_ok hcheck
  obtain ⟨hunspent, hover⟩ := spendInputs_ok hp hrange hsync hspend
  exact ⟨hunspent, checkFee_ok hfee, hover⟩

/-- No fetched transaction is younger than a transaction that is connected. -/
theorem connectInputs_time (hcb : tx.isCoinBase = false)
    (h : connectInputs env ctx mapBlockIndex tx inputs q p pindexBlock fBlock fMiner flags fValidateSig = .ok q') :
    ∀ o ∈ tx.prevouts, ∃ txindex txPrev, inputs.lookup o.hash = some (txindex, txPrev) ∧
      txPrev.nTime ≤ tx.nTime := by
  simp only [connectInputs, hcb, Bool.false_eq_true, if_false, exceptBind_ok] at h
  obtain ⟨nValueIn, hcheck, -⟩ := h
  intro o ho
  obtain ⟨done, rest, hsplit⟩ := List.append_of_mem ho
  obtain ⟨acc, v, -, hround⟩ := Loop.foldlM_rounds (fun _ _ => True) hcheck trivial
    (fun _ _ _ _ _ _ _ _ => trivial) done o rest hsplit
  unfold checkInput at hround
  cases hl : inputs.lookup o.hash with
  | none => rw [hl] at hround; cases hround
  | some prev =>
    obtain ⟨txindex, txPrev⟩ := prev
    simp only [hl, exceptBind_ok, rejectIf_eq_ok, decide_eq_false_iff_not, not_lt] at hround
    obtain ⟨-, -, -, -, -, htime, -⟩ := hround
    exact ⟨txindex, txPrev, rfl, htime⟩

/-- Only a coinstake pays out more than it takes in. -/
theorem connectInputs_fee (hcb : tx.isCoinBase = false) (hcs : tx.isCoinStake = false)
    (h : connectInputs env ctx mapBlockIndex tx inputs q p pindexBlock fBlock fMiner flags fValidateSig = .ok q') :
    tx.valueOut ≤ inputsValue inputs tx.prevouts := by
  simp only [connectInputs, hcb, Bool.false_eq_true, if_false, exceptBind_ok] at h
  obtain ⟨nValueIn, hcheck, -, -, ⟨⟩, hfee, -⟩ := h
  rw [← (checkInputs_ok hcheck).1]
  exact checkFee_ok hfee hcs

/-! ### Disconnecting -/

theorem unspendInput_ok {txdb txdb' : CTxDB} :
    unspendInput txdb o = .ok txdb' ↔
      ∃ txindex, txdb.txIndexMap o.hash = some txindex ∧ o.n < txindex.vSpent.length ∧
        txdb' = txdb.updateTxIndex o.hash (txindex.setSpent o.n .null) := by
  unfold unspendInput CTxDB.txIndexMap
  cases hr : txdb.readTxIndex o.hash with
  | none => simp
  | some txindex =>
    simp only [Option.some.injEq, exists_eq_left']
    by_cases hn : txindex.vSpent.length ≤ o.n
    · simp [hn]
    · rw [if_neg hn]
      constructor
      · intro h; exact ⟨not_le.mp hn, (Except.ok.inj h).symm⟩
      · rintro ⟨-, rfl⟩; rfl

/-- The output `o` exists. -/
def OutputExists (M : TxIndexMap) (o : COutPoint) : Prop :=
  ∃ txindex, M o.hash = some txindex ∧ o.n < txindex.vSpent.length

theorem IsUnspent.outputExists (h : IsUnspent M o) :
    OutputExists M o := by
  obtain ⟨txindex, hM, hn⟩ := h
  exact ⟨txindex, hM, (List.getElem?_eq_some_iff.mp hn).1⟩

theorem outputExists_setSpentAll (os : List COutPoint) (p : CDiskTxPos) :
    OutputExists (setSpentAll os p M) o ↔ OutputExists M o := by
  unfold OutputExists setSpentAll
  cases M o.hash with
  | none => simp
  | some txindex => simp

/-- `DisconnectInputs` succeeds when the outputs spent are there. -/
theorem unspendInputs_total (txdb : CTxDB) (os : List COutPoint)
    (h : ∀ o ∈ os, OutputExists txdb.txIndexMap o) :
    ∃ txdb', os.foldlM unspendInput txdb = .ok txdb' ∧
      txdb'.txIndexMap = setSpentAll os .null txdb.txIndexMap := by
  refine Loop.foldlM_total (fun done (st : CTxDB) =>
    st.txIndexMap = setSpentAll done .null txdb.txIndexMap) (setSpentAll_nil _ _).symm ?_
  intro done o rest st hos hst
  obtain ⟨txindex, hM, hn⟩ : OutputExists st.txIndexMap o := by
    rw [hst, outputExists_setSpentAll]
    exact h o (by rw [hos]; simp)
  refine ⟨_, unspendInput_ok.mpr ⟨txindex, hM, hn, rfl⟩, ?_⟩
  rw [CTxDB.txIndexMap_updateTxIndex, setSpentAll_append, ← hst, hM]
  rfl

end Sphinx
