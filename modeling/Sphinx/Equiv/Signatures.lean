import Sphinx.Equiv.ConnectBlock

/-!
# Signatures of connected blocks

`ConnectInputs` checks signatures under the guard
`!(fBlock && !IsInitialBlockDownload())`: for a block, only during initial block download.

* `inputsVerified_of_connectBlock`: during initial block download every input of a connected block
  has verified;
* `connectBlock_withVerifyScript`: outside of it the script interpreter has no influence on
  `ConnectBlock`;
* `enforcesSignatures_iff`: so `ConnectBlock` enforces signatures exactly during initial block
  download, and for blocks that hold nothing but coinbases.
-/

namespace Sphinx

variable {env : Env} {ctx : Ctx} {node : Node} {block : CBlock} {pindex : CBlockIndex}
variable {tx : CTransaction} {p : CDiskTxPos}

/-- The environment with another script interpreter. -/
def Env.withVerifyScript (env : Env)
    (verifyScript : CScript → CScript → CTransaction → Nat → Nat → Int → Bool) : Env :=
  { env with verifyScript := verifyScript }

/-- Input `i` of `tx` spends the output `o` of a transaction the index `M` leads to, and its
signature verifies. -/
def InputVerified (env : Env) (pool : CTxMemPool) (M : TxIndexMap) (tx : CTransaction) (i : Nat)
    (o : COutPoint) : Prop :=
  ∃ txindex txPrev, M o.hash = some txindex ∧ loadPrev env pool o.hash txindex = some txPrev ∧
    env.verifySignature txPrev tx i scriptVerifyNoCache 0 = true

/-- Every input of every transaction of the block that is not a coinbase verifies at its turn. -/
def InputsVerified (env : Env) (node : Node) (block : CBlock) (pindex : CBlockIndex) : Prop :=
  ∀ done tx rest, block.vtx = done ++ tx :: rest → tx.isCoinBase = false →
    ∀ i o, tx.prevouts[i]? = some o → InputVerified env node.mempool
      (indexAfter env pindex block node.txdb.txIndexMap done) tx i o

/-- Whatever the script interpreter says, a block is connected only if its inputs verify. -/
def EnforcesSignatures (env : Env) (ctx : Ctx) (node : Node) (block : CBlock)
    (pindex : CBlockIndex) : Prop :=
  ∀ verifyScript node',
    connectBlock (env.withVerifyScript verifyScript) ctx node block pindex = .ok node' →
      InputsVerified (env.withVerifyScript verifyScript) node block pindex

/-! ### During initial block download -/

theorem checkInputSig_download {txPrev : CTransaction} {i : Nat} (hdl : ctx.fInitialDownload = true)
    (h : checkInputSig env ctx tx txPrev i true scriptVerifyNoCache true = .ok ()) :
    env.verifySignature txPrev tx i scriptVerifyNoCache 0 = true := by
  unfold checkInputSig at h
  simp only [hdl, Bool.not_true, Bool.and_false, Bool.not_false, Bool.and_self, if_true] at h
  by_cases hv : env.verifySignature txPrev tx i scriptVerifyNoCache 0 = true
  · exact hv
  · rw [if_neg hv] at h
    split_ifs at h <;> cases h

theorem spendInput_download {inputs inputs' : MapPrevTx} {q q' : StdMap Uint256 CTxIndex}
    {o : COutPoint} {i : Nat} (hdl : ctx.fInitialDownload = true)
    (h : spendInput env ctx tx p true false scriptVerifyNoCache true (inputs, q) (o, i) = .ok (inputs', q')) :
    ∃ txindex txPrev, inputs.lookup o.hash = some (txindex, txPrev) ∧
      env.verifySignature txPrev tx i scriptVerifyNoCache 0 = true := by
  unfold spendInput at h
  cases hl : inputs.lookup o.hash with
  | none => simp only [hl] at h; cases h
  | some prev =>
    obtain ⟨txindex, txPrev⟩ := prev
    simp only [hl, exceptBind_ok] at h
    obtain ⟨-, -, ⟨⟩, hsig, -⟩ := h
    exact ⟨txindex, txPrev, rfl, checkInputSig_download hdl hsig⟩

/-- The spending loop does not change the previous transactions, so each input has verified against
the one that was fetched. -/
theorem spendInputs_download {inputs inputs' : MapPrevTx} {q q' : StdMap Uint256 CTxIndex}
    (hdl : ctx.fInitialDownload = true)
    (h : tx.prevouts.zipIdx.foldlM (spendInput env ctx tx p true false scriptVerifyNoCache true) (inputs, q) =
        .ok (inputs', q')) :
    ∀ i o, tx.prevouts[i]? = some o → ∃ txPrev, (inputs.lookup o.hash).map Prod.snd = some txPrev ∧
      env.verifySignature txPrev tx i scriptVerifyNoCache 0 = true := by
  have hinv := Loop.foldlM_inv (fun (done : List (COutPoint × Nat))
      (st : MapPrevTx × StdMap Uint256 CTxIndex) =>
    (∀ k, (st.1.lookup k).map Prod.snd = (inputs.lookup k).map Prod.snd) ∧
      ∀ oi ∈ done, ∃ txPrev, (inputs.lookup oi.1.hash).map Prod.snd = some txPrev ∧
        env.verifySignature txPrev tx oi.2 scriptVerifyNoCache 0 = true)
    h ⟨fun _ => rfl, by simp⟩ ?_
  · intro i o ho
    exact hinv.2 (o, i) (List.mem_zipIdx_iff_getElem?.mpr ho)
  rintro done ⟨o, i⟩ rest ⟨inputs1, q1⟩ ⟨inputs2, q2⟩ - ⟨hsame, hdone⟩ hstep
  obtain ⟨txindex, txPrev, hl, hsig⟩ := spendInput_download hdl hstep
  obtain ⟨txindex', txPrev', hl', -, rfl, -⟩ := spendInput_ok hstep
  obtain ⟨rfl, rfl⟩ := Prod.mk.inj (Option.some.inj (hl.symm.trans hl'))
  have hprev : (inputs1.lookup o.hash).map Prod.snd = some txPrev := by rw [hl]; rfl
  refine ⟨fun k => ?_, fun oi hoi => ?_⟩
  · rw [← hsame k]
    by_cases hk : k = o.hash
    · subst hk
      rw [AList.lookup_insert, hprev]; rfl
    · rw [AList.lookup_insert_ne hk]
  · rcases List.mem_append.mp hoi with hoi | hoi
    · exact hdone oi hoi
    · rw [List.mem_singleton.mp hoi]
      exact ⟨txPrev, by rw [← hsame]; exact hprev, hsig⟩

theorem connectTxInputs_download {st st' : ConnectState} (hcb : tx.isCoinBase = false)
    (hdl : ctx.fInitialDownload = true) (h : connectTxInputs env ctx node pindex p st tx = .ok st') :
    ∀ i o, tx.prevouts[i]? = some o → InputVerified env node.mempool
      (overlay st.mapQueuedChanges node.txdb.txIndexMap) tx i o := by
  obtain ⟨inputs, nIn, nOut, nP2SH, q', hfetch, -, -, hconn, -⟩ := connectTxInputs_inv h
  simp only [connectInputs, hcb, Bool.false_eq_true, if_false, exceptBind_ok] at hconn
  obtain ⟨_, -, ⟨inputs', q1⟩, hspend, -⟩ := hconn
  obtain ⟨hprev, -⟩ := fetchInputs_ok hcb hfetch
  intro i o ho
  obtain ⟨txPrev, hl, hsig⟩ := spendInputs_download hdl hspend i o ho
  obtain ⟨⟨txindex, txPrev'⟩, hl', rfl⟩ := Option.map_eq_some_iff.mp hl
  rcases hprev _ _ hl' with ⟨hf, hload⟩ | ⟨-, hb, -⟩
  · exact ⟨txindex, txPrev', by rw [← findTxIndex_block _ _ false]; exact hf, hload, hsig⟩
  · cases hb

/-- The checks of `ConnectBlock` that come with a successful one. -/
theorem connectBlock_loop {node' : Node} (h : connectBlock env ctx node block pindex = .ok node') :
    ∃ st, checkBlock env ctx (node.pindexBest.bind node.mapBlockIndex) block true true false
        = .ok () ∧
      block.vtx.foldlM (connectTx env ctx node pindex false)
        { nTxPos := firstTxPos pindex block false } = .ok st := by
  unfold connectBlock at h
  split at h
  · cases h
  next st hchecks =>
  simp only [connectChecks, exceptBind_ok] at hchecks
  obtain ⟨⟨⟩, hcheck, st', hloop, -⟩ := hchecks
  exact ⟨st', hcheck, hloop⟩

theorem inputsVerified_of_connectBlock {node' : Node} (hdl : ctx.fInitialDownload = true)
    (h : connectBlock env ctx node block pindex = .ok node') :
    InputsVerified env node block pindex := by
  obtain ⟨st, -, hloop⟩ := connectBlock_loop h
  intro done tx rest hvtx hcb i o ho
  obtain ⟨st1, st2, hinv, hround⟩ := (connectLoop_ok hloop).2 done tx rest hvtx
  simp only [connectTx, hcb, Bool.false_eq_true, if_false, exceptBind_ok] at hround
  obtain ⟨-, -, st3, hin, -⟩ := hround
  rw [← hinv.overlay_eq]
  exact connectTxInputs_download hcb hdl hin i o ho

/-! ### Outside of it -/

theorem checkInputSig_block {txPrev : CTransaction} {i flags : Nat} {fValidateSig : Bool}
    (hdl : ctx.fInitialDownload = false) :
    checkInputSig env ctx tx txPrev i true flags fValidateSig = .ok () := by
  simp [checkInputSig, hdl]

theorem spendInput_withVerifyScript {v} {fMiner : Bool} {flags : Nat} {fValidateSig : Bool}
    (hdl : ctx.fInitialDownload = false) :
    spendInput (env.withVerifyScript v) ctx tx p true fMiner flags fValidateSig
      = spendInput env ctx tx p true fMiner flags fValidateSig := by
  funext ⟨inputs, q⟩ ⟨o, i⟩
  simp only [spendInput, checkInputSig_block hdl]

theorem connectTx_withVerifyScript {v} (hdl : ctx.fInitialDownload = false) :
    connectTx (env.withVerifyScript v) ctx node pindex false
      = connectTx env ctx node pindex false := by
  have hinputs : ∀ p st tx, connectTxInputs (env.withVerifyScript v) ctx node pindex p st tx
      = connectTxInputs env ctx node pindex p st tx := by
    intro p st tx
    simp only [connectTxInputs, connectInputs, spendInput_withVerifyScript hdl]
    rfl
  funext st tx
  simp only [connectTx, hinputs]
  rfl

/-- Outside initial block download the script interpreter has no influence on `ConnectBlock`. -/
theorem connectBlock_withVerifyScript (v) (hdl : ctx.fInitialDownload = false) :
    connectBlock (env.withVerifyScript v) ctx node block pindex
      = connectBlock env ctx node block pindex := by
  simp only [connectBlock, connectChecks, connectTx_withVerifyScript hdl]
  rfl

theorem verifySignature_rejecting (txFrom txTo : CTransaction) (nIn flags : Nat) (nHashType : Int) :
    (env.withVerifyScript fun _ _ _ _ _ _ => false).verifySignature txFrom txTo nIn flags nHashType
      = false := by
  unfold Env.verifySignature
  split
  · rfl
  · split
    · rfl
    · split_ifs <;> rfl

/-- **When `ConnectBlock` enforces signatures.**  For a block that `ConnectBlock` connects, a valid
signature of every input is enforced exactly when this happens during initial block download, or when
the block holds nothing but coinbases. -/
theorem enforcesSignatures_iff {node' : Node}
    (h : connectBlock env ctx node block pindex = .ok node') :
    EnforcesSignatures env ctx node block pindex ↔
      ctx.fInitialDownload = true ∨ ∀ tx ∈ block.vtx, tx.isCoinBase = true := by
  constructor
  · intro hall
    by_cases hdl : ctx.fInitialDownload = true
    · exact .inl hdl
    refine .inr fun tx htx => ?_
    by_contra hcb
    -- the block is also connected with an interpreter that rejects every script
    have hverified := hall (fun _ _ _ _ _ _ => false) node'
      ((connectBlock_withVerifyScript _ (by simpa using hdl)).trans h)
    obtain ⟨done, rest, hvtx⟩ := List.append_of_mem htx
    obtain ⟨st, hcheck, -⟩ := connectBlock_loop h
    have hvin := (CTransaction.checkTransaction_ok ((checkBlock_ok hcheck).txs tx htx)).1
    obtain ⟨txin, vin, htxin⟩ := List.exists_cons_of_ne_nil hvin
    obtain ⟨_, txPrev, -, -, hsig⟩ := hverified done tx rest hvtx (by simpa using hcb) 0 txin.prevout
      (by simp [CTransaction.prevouts, htxin])
    rw [verifySignature_rejecting] at hsig
    cases hsig
  · rintro (hdl | honly) v node'' hconn
    · exact inputsVerified_of_connectBlock hdl hconn
    · intro done tx rest hvtx hcb
      rw [honly tx (by rw [hvtx]; simp)] at hcb
      cases hcb

/-- A block with a payment, during initial block download. -/
theorem enforcesSignatures_iff_download :
    EnforcesSignatures (sampleEnv [claimingCoinbase, ordinaryTx]) { sampleCtx with fInitialDownload := true }
      (sampleNode [fundingIndex, sampleIndex]) (sampleBlock [claimingCoinbase, ordinaryTx]) sampleIndex := by
  obtain ⟨node', hconn⟩ : ∃ node', connectBlock (sampleEnv [claimingCoinbase, ordinaryTx])
      { sampleCtx with fInitialDownload := true } (sampleNode [fundingIndex, sampleIndex])
      (sampleBlock [claimingCoinbase, ordinaryTx]) sampleIndex = .ok node' := exists_of_isOk (by decide)
  exact (enforcesSignatures_iff hconn).mpr (.inl rfl)

/-- Outside initial block download a block with a spend that the interpreter rejects is connected. -/
theorem connectBlock_unverified :
    let vtx := [claimingCoinbase, ordinaryTx]
    let env := (sampleEnv vtx).withVerifyScript fun _ _ _ _ _ _ => false
    let node := sampleNode [fundingIndex, sampleIndex]
    sampleCtx.fInitialDownload = false ∧
      (∃ node', connectBlock env sampleCtx node (sampleBlock vtx) sampleIndex = .ok node') ∧
      ¬ InputsVerified env node (sampleBlock vtx) sampleIndex := by
  intro vtx env node
  refine ⟨rfl, exists_of_isOk (by decide), fun hall => ?_⟩
  obtain ⟨_, _, -, -, hsig⟩ := hall [claimingCoinbase] ordinaryTx [] rfl (by decide) 0 ⟨1001, 0⟩ rfl
  rw [verifySignature_rejecting] at hsig
  cases hsig

end Sphinx
