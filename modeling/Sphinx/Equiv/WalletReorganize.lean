import Sphinx.Equiv.Reorganize
import Sphinx.Equiv.WalletSpent

/-!
# The wallet after a failed reorganisation

`DisconnectBlock` and `ConnectBlock` call `SyncTransaction` for every transaction of a block, before the
batch is committed, and the abort of the batch does not take that back.

* `walletSyncs_failed`: the calls that a failed `SetBestChain` has made;
* `CWallet.same_iff_of_syncs`: when a list of such calls leaves `mapWallet` as it was.
-/

namespace Sphinx

variable {block : CBlock} {pindex : CBlockIndex} {e : Reject × Node} {st : Node × List CTransaction}

/-! ### The calls of a failed `SetBestChain` -/

/-- A call of `SyncTransaction`. -/
structure SyncCall where
  tx : CTransaction
  block : CBlock
  fConnect : Bool
deriving DecidableEq, Repr

/-- The calls for the transactions of a block. -/
def syncBlock (block : CBlock) (fConnect : Bool) : List SyncCall :=
  block.vtx.map fun tx => { tx := tx, block := block, fConnect := fConnect }

/-- The calls for a block that has been read from disk. -/
def syncIndexed (env : Env) (node : Node) (pindex : Uint256) (fConnect : Bool) : List SyncCall :=
  match readIndexed env node pindex "" with
  | .error _ => []
  | .ok (_, block) => syncBlock block fConnect

/-- The calls of the disconnecting loop, up to the first failure. -/
def disconnectSyncs (env : Env) : List Uint256 → Node × List CTransaction → List SyncCall
  | [], _ => []
  | pindex :: vDisconnect, st =>
    match disconnectTip env st pindex with
    | .error _ => []
    | .ok st' => syncIndexed env st.1 pindex false ++ disconnectSyncs env vDisconnect st'

/-- The calls of the connecting loop, up to the first failure. -/
def connectSyncs (env : Env) (ctx : Uint256 → Ctx) :
    List Uint256 → Node × List CTransaction → List SyncCall
  | [], _ => []
  | pindex :: vConnect, st =>
    match connectTip env ctx st pindex with
    | .error _ => []
    | .ok st' => syncIndexed env st.1 pindex true ++ connectSyncs env ctx vConnect st'

section

variable (env : Env) (ctx : Uint256 → Ctx) (node : Node)

def switchSyncs (vDisconnect vConnect : List Uint256) :
    List SyncCall :=
  disconnectSyncs env vDisconnect (node, []) ++
    match vDisconnect.foldlM (disconnectTip env) (node, []) with
    | .error _ => []
    | .ok (node, _) => connectSyncs env ctx vConnect (node, [])

/-- The calls of a `Reorganize` that fails. -/
def reorganizeSyncs (pindexNew : CBlockIndex) :
    List SyncCall :=
  match node.pindexBest.bind node.mapBlockIndex with
  | none => []
  | some pindexBest =>
    match findBranches node.mapBlockIndex pindexBest pindexNew with
    | .error _ => []
    | .ok (vDisconnect, vConnect) => switchSyncs env ctx node vDisconnect vConnect

/-- The calls of a `SetBestChain` that fails. -/
def failedSyncs (block : CBlock) (pindexNew : CBlockIndex) :
    List SyncCall :=
  let node := node.begun
  if block.hashPrevBlock = node.hashBestChain then []
  else
    match node.pindexBest.bind node.mapBlockIndex with
    | none => []
    | some pindexBest =>
      reorganizeSyncs env ctx node
        (postpone node.mapBlockIndex pindexBest.nChainTrust (pindexNew.nHeight + 1) pindexNew []).1

end

section

variable {env : Env} {ctx : Uint256 → Ctx} {node node' : Node} {r : Reject}

/-- The calls as `walletSyncs` records them. -/
def SyncCall.record (call : SyncCall) : CTransaction × Bool := (call.tx, call.fConnect)

theorem map_record_syncBlock (block : CBlock) (fConnect : Bool) :
    (syncBlock block fConnect).map SyncCall.record = block.vtx.map fun tx => (tx, fConnect) := by
  rw [syncBlock, List.map_map]
  rfl

/-- What has been recorded at the end of a computation, which may have failed. -/
def walletSyncsOf {α : Type} (f : α → Node) : Except (Reject × Node) α → List (CTransaction × Bool)
  | .error e => e.2.walletSyncs
  | .ok a => (f a).walletSyncs

theorem walletSyncs_disconnectBlock_ok (h : disconnectBlock env node block pindex = .ok node') :
    node'.walletSyncs = node.walletSyncs ++ (syncBlock block false).map SyncCall.record := by
  rw [map_record_syncBlock]
  unfold disconnectBlock at h
  split at h
  · cases h
  · obtain rfl := Except.ok.inj h
    rfl

theorem walletSyncs_disconnectBlock_error (h : disconnectBlock env node block pindex = .error e) :
    e.2.walletSyncs = node.walletSyncs := by
  unfold disconnectBlock at h
  split at h
  · obtain rfl := Except.error.inj h
    rfl
  · cases h

theorem walletSyncs_connectBlock_ok {c : Ctx} (h : connectBlock env c node block pindex = .ok node') :
    node'.walletSyncs = node.walletSyncs ++ (syncBlock block true).map SyncCall.record := by
  rw [map_record_syncBlock]
  unfold connectBlock at h
  split at h
  · cases h
  · simp only [connectWrites_eq] at h
    split at h
    · cases h
    · obtain rfl := Except.ok.inj h
      rfl

theorem walletSyncs_connectBlock_error {c : Ctx} (h : connectBlock env c node block pindex = .error e) :
    e.2.walletSyncs = node.walletSyncs := by
  unfold connectBlock at h
  split at h
  · obtain rfl := Except.error.inj h
    rfl
  · simp only [connectWrites_eq] at h
    split at h
    · obtain rfl := Except.error.inj h
      rfl
    · cases h

/-- The calls for a block that is in the index and on disk. -/
theorem syncIndexed_of_read {h : Uint256} {entry : CBlockIndex}
    (hentry : node.mapBlockIndex h = some entry) (hblock : env.readBlockFromDisk entry = .ok block)
    (fConnect : Bool) : syncIndexed env node h fConnect = syncBlock block fConnect := by
  rw [syncIndexed, readIndexed, hentry]
  dsimp only
  rw [hblock]

/-! The rounds of the two loops record the calls for their block, unless they fail. -/

theorem walletSyncs_disconnectTip_ok {st' : Node × List CTransaction} {pindex : Uint256}
    (h : disconnectTip env st pindex = .ok st') : st'.1.walletSyncs =
      st.1.walletSyncs ++ (syncIndexed env st.1 pindex false).map SyncCall.record := by
  obtain ⟨entry, block, hentry, hblock, hdisconnect, -⟩ := disconnectTip_ok h
  rw [syncIndexed_of_read hentry hblock, walletSyncs_disconnectBlock_ok hdisconnect]

theorem walletSyncs_disconnectTip_error {pindex : Uint256} (h : disconnectTip env st pindex = .error e) :
    e.2.walletSyncs = st.1.walletSyncs := by
  obtain ⟨node, vResurrect⟩ := st
  simp only [disconnectTip] at h
  cases hread : readIndexed env node pindex "Reorganize() : ReadFromDisk for disconnect failed" with
  | error e' =>
    rw [hread, exceptError_bind] at h
    rw [← Except.error.inj h, readIndexed_error hread]
  | ok p =>
    rw [hread, exceptOk_bind] at h
    cases hdisconnect : disconnectBlock env node p.2 p.1 with
    | error e' =>
      have hsyncs := walletSyncs_disconnectBlock_error hdisconnect
      simp only [hdisconnect] at h
      rw [← Except.error.inj h]
      exact hsyncs
    | ok node' =>
      simp only [hdisconnect] at h
      cases h

theorem walletSyncs_connectTip_ok {st' : Node × List CTransaction} {pindex : Uint256}
    (h : connectTip env ctx st pindex = .ok st') : st'.1.walletSyncs =
      st.1.walletSyncs ++ (syncIndexed env st.1 pindex true).map SyncCall.record := by
  obtain ⟨entry, block, hentry, hblock, hconnect, -⟩ := connectTip_ok h
  rw [syncIndexed_of_read hentry hblock, walletSyncs_connectBlock_ok hconnect]

theorem walletSyncs_connectTip_error {pindex : Uint256} (h : connectTip env ctx st pindex = .error e) :
    e.2.walletSyncs = st.1.walletSyncs := by
  obtain ⟨node, vDelete⟩ := st
  simp only [connectTip] at h
  cases hread : readIndexed env node pindex "Reorganize() : ReadFromDisk for connect failed" with
  | error e' =>
    rw [hread, exceptError_bind] at h
    rw [← Except.error.inj h, readIndexed_error hread]
  | ok p =>
    rw [hread, exceptOk_bind] at h
    cases hconnect : connectBlock env (ctx pindex) node p.2 p.1 with
    | error e' =>
      have hsyncs := walletSyncs_connectBlock_error hconnect
      simp only [hconnect] at h
      rw [← Except.error.inj h]
      exact hsyncs
    | ok node' =>
      simp only [hconnect] at h
      cases h

theorem walletSyncs_disconnectLoop (vDisconnect : List Uint256) :
    ∀ st : Node × List CTransaction,
      walletSyncsOf Prod.fst (vDisconnect.foldlM (disconnectTip env) st) =
        st.1.walletSyncs ++ (disconnectSyncs env vDisconnect st).map SyncCall.record := by
  induction vDisconnect with
  | nil => exact fun st => (List.append_nil _).symm
  | cons pindex vDisconnect ih =>
    intro st
    rw [List.foldlM_cons, disconnectSyncs]
    cases htip : disconnectTip env st pindex with
    | error e => exact (walletSyncs_disconnectTip_error htip).trans (List.append_nil _).symm
    | ok st' =>
      rw [exceptOk_bind, ih, walletSyncs_disconnectTip_ok htip, List.map_append, List.append_assoc]

theorem walletSyncs_connectLoop (vConnect : List Uint256) :
    ∀ st : Node × List CTransaction,
      walletSyncsOf Prod.fst (vConnect.foldlM (connectTip env ctx) st) =
        st.1.walletSyncs ++ (connectSyncs env ctx vConnect st).map SyncCall.record := by
  induction vConnect with
  | nil => exact fun st => (List.append_nil _).symm
  | cons pindex vConnect ih =>
    intro st
    rw [List.foldlM_cons, connectSyncs]
    cases htip : connectTip env ctx st pindex with
    | error e => exact (walletSyncs_connectTip_error htip).trans (List.append_nil _).symm
    | ok st' =>
      rw [exceptOk_bind, ih, walletSyncs_connectTip_ok htip, List.map_append, List.append_assoc]

theorem walletSyncs_switchBranches (node : Node) (vDisconnect vConnect : List Uint256) :
    walletSyncsOf Prod.fst (switchBranches env ctx node vDisconnect vConnect) =
      node.walletSyncs ++ (switchSyncs env ctx node vDisconnect vConnect).map SyncCall.record := by
  have hdisconnect := @walletSyncs_disconnectLoop env vDisconnect (node, [])
  rw [switchBranches, switchSyncs]
  cases hloop : vDisconnect.foldlM (disconnectTip env) (node, []) with
  | error e =>
    rw [hloop] at hdisconnect
    rw [List.append_nil]
    exact hdisconnect
  | ok st =>
    rw [hloop] at hdisconnect
    have hdisconnect' : st.1.walletSyncs = node.walletSyncs ++
        (disconnectSyncs env vDisconnect (node, [])).map SyncCall.record := hdisconnect
    have hconnect := @walletSyncs_connectLoop env ctx vConnect (st.1, [])
    rw [exceptOk_bind, List.map_append, ← List.append_assoc, ← hdisconnect']
    dsimp only
    cases hloop' : vConnect.foldlM (connectTip env ctx) (st.1, []) with
    | error e =>
      rw [hloop'] at hconnect
      exact hconnect
    | ok st' =>
      rw [hloop'] at hconnect
      exact hconnect

theorem walletSyncs_invalidChainFound (node : Node) (pindexNew : CBlockIndex) :
    (invalidChainFound node pindexNew).walletSyncs = node.walletSyncs := by
  unfold invalidChainFound
  split <;> rfl

theorem walletSyncs_reorganize_error {pindexNew : CBlockIndex}
    (h : reorganize env ctx node pindexNew = .error e) :
    e.2.walletSyncs = node.walletSyncs ++ (reorganizeSyncs env ctx node pindexNew).map SyncCall.record := by
  unfold reorganize at h
  unfold reorganizeSyncs
  cases hbest : node.pindexBest.bind node.mapBlockIndex with
  | none =>
    simp only [hbest] at h
    rw [← Except.error.inj h]
    exact (List.append_nil _).symm
  | some pindexBest =>
    simp only [hbest] at h ⊢
    cases hbranches : findBranches node.mapBlockIndex pindexBest pindexNew with
    | error r =>
      simp only [hbranches] at h
      rw [← Except.error.inj h]
      exact (List.append_nil _).symm
    | ok branches =>
      have hsyncs := @walletSyncs_switchBranches env ctx node branches.1 branches.2
      simp only [hbranches] at h ⊢
      cases hswitch : switchBranches env ctx node branches.1 branches.2 with
      | error e' =>
        rw [hswitch, exceptError_bind] at h
        rw [hswitch] at hsyncs
        rw [← Except.error.inj h]
        exact hsyncs
      | ok r =>
        rw [hswitch, exceptOk_bind] at h
        cases h

/-- **The calls of a failed `SetBestChain`** are those for the blocks that it has disconnected and
connected. -/
theorem walletSyncs_failed {pindexNew : CBlockIndex}
    (hfail : setBestChain env ctx node block pindexNew = .error (r, node')) :
    node'.walletSyncs =
      node.walletSyncs ++ (failedSyncs env ctx node block pindexNew).map SyncCall.record := by
  simp only [setBestChain] at hfail
  unfold failedSyncs
  set begun : Node := node.begun with hbegun
  split_ifs at hfail with hgenesis hnext
  · cases hfail
  · rw [if_pos hnext]
    unfold setBestChainInner at hfail
    cases hconnect : connectBlock env (ctx pindexNew.hashBlock) begun block pindexNew with
    | error e =>
      have hsyncs := walletSyncs_connectBlock_error hconnect
      simp only [hconnect] at hfail
      obtain ⟨-, rfl⟩ := Prod.mk.inj (Except.error.inj hfail)
      rw [walletSyncs_invalidChainFound]
      exact hsyncs.trans (List.append_nil _).symm
    | ok node1 =>
      simp only [hconnect] at hfail
      cases hfail
  · rw [if_neg hnext]
    unfold switchBestChain at hfail
    cases hbest : begun.pindexBest.bind begun.mapBlockIndex with
    | none =>
      simp only [hbest] at hfail
      obtain ⟨-, rfl⟩ := Prod.mk.inj (Except.error.inj hfail)
      exact (List.append_nil _).symm
    | some pindexBest =>
      simp only [hbest] at hfail ⊢
      cases hreorganize : reorganize env ctx begun (postpone begun.mapBlockIndex pindexBest.nChainTrust
          (pindexNew.nHeight + 1) pindexNew []).1 with
      | error e =>
        have hsyncs := walletSyncs_reorganize_error hreorganize
        simp only [hreorganize] at hfail
        obtain ⟨-, rfl⟩ := Prod.mk.inj (Except.error.inj hfail)
        rw [walletSyncs_invalidChainFound]
        exact hsyncs
      | ok node1 =>
        simp only [hreorganize] at hfail
        cases hfail

end

/-! ### The place of a transaction in a block -/

/-- What `AddToWallet` merges into the place of a transaction. -/
def CMerkleTx.merge (m mIn : CMerkleTx) : CMerkleTx :=
  { m with
    hashBlock := if mIn.hashBlock = 0 then m.hashBlock else mIn.hashBlock
    vMerkleBranch := if mIn.nIndex = -1 then m.vMerkleBranch else mIn.vMerkleBranch
    nIndex := if mIn.nIndex = -1 then m.nIndex else mIn.nIndex }

/-- The place of a transaction in a block. -/
def placeIn (env : Env) (tx : CTransaction) (block : CBlock) : CMerkleTx :=
  (CWalletTx.setMerkleBranch env { tx := tx } block).toMerkleTx

/-- The place that the wallet has for `hash` after a call. -/
def SyncCall.place (env : Env) (call : SyncCall) (hash : Uint256) (m : CMerkleTx) : CMerkleTx :=
  if env.getHash call.tx = hash then m.merge (placeIn env call.tx call.block) else m

theorem CMerkleTx.merge_merge (m mIn : CMerkleTx) : (m.merge mIn).merge mIn = m.merge mIn := by
  unfold merge
  dsimp only
  split_ifs <;> rfl

theorem SyncCall.place_place (env : Env) (call : SyncCall) (hash : Uint256) (m : CMerkleTx) :
    call.place env hash (call.place env hash m) = call.place env hash m := by
  unfold place
  split
  · exact CMerkleTx.merge_merge _ _
  · rfl

namespace CWalletTx

variable {env : Env} {c : Nat → Prop} {f g : CMerkleTx → CMerkleTx} {wtx wtx' wtx'' : CWalletTx}

/-- A change of the place by `f`, after which only the outputs in `c` may have lost their marks, and no
output has got one. -/
structure Evolves (c : Nat → Prop) (f : CMerkleTx → CMerkleTx) (wtx wtx' : CWalletTx) : Prop where
  entry : wtx' = { wtx with
    hashBlock := wtx'.hashBlock
    vMerkleBranch := wtx'.vMerkleBranch
    nIndex := wtx'.nIndex
    vfSpent := wtx'.vfSpent
    cached := wtx'.cached }
  place : wtx'.toMerkleTx = f wtx.toMerkleTx
  kept : ∀ n < wtx.tx.vout.length, ¬ c n → wtx'.vfSpent.getD n false = wtx.vfSpent.getD n false
  lost : ∀ n < wtx.tx.vout.length, wtx'.vfSpent.getD n false = true → wtx.vfSpent.getD n false = true

theorem Evolves.tx (h : wtx.Evolves c f wtx') : wtx'.tx = wtx.tx := by rw [h.entry]

theorem Evolves.refl (wtx : CWalletTx) : wtx.Evolves c id wtx :=
  ⟨rfl, rfl, fun _ _ _ => rfl, fun _ _ h => h⟩

theorem Evolves.trans (h : wtx.Evolves c f wtx') (h' : wtx'.Evolves c g wtx'') :
    wtx.Evolves c (g ∘ f) wtx'' := by
  refine ⟨?_, ?_, fun n hn hc => ?_, fun n hn hmark => ?_⟩
  · rw [h'.entry, h.entry]
  · rw [h'.place, h.place, Function.comp_apply]
  · rw [h'.kept n (by rwa [h.tx]) hc, h.kept n hn hc]
  · exact h.lost n hn (h'.lost n (by rwa [h.tx]) hmark)

theorem Evolves.mono {c' : Nat → Prop} (hsub : ∀ n, c n → c' n) (h : wtx.Evolves c f wtx') :
    wtx.Evolves c' f wtx' :=
  ⟨h.entry, h.place, fun n hn hc => h.kept n hn fun hcn => hc (hsub n hcn), h.lost⟩

theorem evolves_markDirty (wtx : CWalletTx) : wtx.Evolves c id wtx.markDirty :=
  ⟨rfl, rfl, fun _ _ _ => rfl, fun _ _ h => h⟩

theorem updateSpent_nil (wtx : CWalletTx) : wtx.updateSpent [] = (false, wtx) := by
  have hloop : updateSpentLoop wtx.vfSpent [] = wtx.vfSpent := by
    cases wtx.vfSpent <;> rfl
  rw [updateSpent, hloop, if_pos rfl]

/-- The merge of a transaction from a block changes the place only, and says whether it has changed. -/
theorem merge_eq (wtx : CWalletTx) {wtxIn : CWalletTx} (hfrom : wtxIn.fFromMe = false)
    (hspent : wtxIn.vfSpent = []) :
    wtx.merge wtxIn = (decide (wtx.toMerkleTx.merge wtxIn.toMerkleTx ≠ wtx.toMerkleTx), { wtx with
      hashBlock := (wtx.toMerkleTx.merge wtxIn.toMerkleTx).hashBlock
      vMerkleBranch := (wtx.toMerkleTx.merge wtxIn.toMerkleTx).vMerkleBranch
      nIndex := (wtx.toMerkleTx.merge wtxIn.toMerkleTx).nIndex }) := by
  obtain ⟨tx, hashBlock, vMerkleBranch, nIndex⟩ := wtx
  simp only [merge, hfrom, hspent, updateSpent_nil, toMerkleTx, CMerkleTx.merge]
  refine Prod.ext ?_ ?_
  · grind
  · by_cases hblock : wtxIn.hashBlock = 0 <;> by_cases hindex : wtxIn.nIndex = -1 <;>
      by_cases hsame : wtxIn.hashBlock = hashBlock <;> simp [hblock, hindex, hsame] <;> grind

theorem evolves_merge (wtx : CWalletTx) {wtxIn : CWalletTx} (hfrom : wtxIn.fFromMe = false)
    (hspent : wtxIn.vfSpent = []) :
    wtx.Evolves c (fun m => m.merge wtxIn.toMerkleTx) (wtx.merge wtxIn).2 := by
  rw [merge_eq wtx hfrom hspent]
  exact ⟨rfl, rfl, fun _ _ _ => rfl, fun _ _ h => h⟩

theorem evolves_markUnspent {nOut : Nat} (h : wtx.markUnspent nOut = some wtx') :
    wtx.Evolves (fun n => n = nOut) id wtx' := by
  have hspec := setSpent_spec h
  unfold markUnspent setSpent at h
  dsimp only at h
  split_ifs at h with hrange hsame
  · obtain rfl := Option.some.inj h
    exact ⟨rfl, rfl, fun n hn _ => resizedSpent_getD hn,
      fun n hn hmark => (resizedSpent_getD hn).symm.trans hmark⟩
  · obtain rfl := Option.some.inj h
    have hother (n : Nat) (hn : n < wtx.tx.vout.length) (hne : n ≠ nOut) :
        (wtx.resizedSpent.set nOut false).getD n false = wtx.vfSpent.getD n false := by
      rw [List.getD_eq_getElem?_getD, List.getElem?_set_ne (Ne.symm hne), ← List.getD_eq_getElem?_getD,
        resizedSpent_getD hn]
    refine ⟨rfl, rfl, hother, fun n hn hmark => ?_⟩
    by_cases heq : n = nOut
    · subst heq
      exact absurd (hspec.2.2.symm.trans hmark) Bool.false_ne_true
    · exact (hother n hn heq).symm.trans hmark

end CWalletTx

/-! ### The calls of `SyncTransaction` -/

namespace CWallet

variable {env : Env} {ctx : WalletCtx} {w w' w'' : CWallet} {c : COutPoint → Prop}
  {f g : Uint256 → CMerkleTx → CMerkleTx}

/-- The same transactions, with their places changed by `f`, and with marks lost in `c` only. -/
def Evolves (c : COutPoint → Prop) (f : Uint256 → CMerkleTx → CMerkleTx) (w w' : CWallet) : Prop :=
  MapLoop.Kept (fun k => CWalletTx.Evolves (fun n => c ⟨k, n⟩) (f k)) w.mapWallet w'.mapWallet

/-- The outpoint is an output of a wallet transaction that is mine. -/
def IsOwn (ctx : WalletCtx) (w : CWallet) (o : COutPoint) : Prop :=
  ∃ txout, w.output o = some txout ∧ ctx.isMine txout.scriptPubKey ≠ ISMINE_NO

/-- The output is not marked as spent. -/
def Unmarked (w : CWallet) (o : COutPoint) : Prop :=
  ∀ prev ∈ w.mapWallet.lookup o.hash, o.n < prev.tx.vout.length → prev.vfSpent.getD o.n false = false

theorem Evolves.refl (w : CWallet) : w.Evolves c (fun _ => id) w :=
  MapLoop.Kept.refl (fun _ wtx => CWalletTx.Evolves.refl wtx) _

theorem Evolves.trans (h : w.Evolves c f w') (h' : w'.Evolves c g w'') :
    w.Evolves c (fun k => g k ∘ f k) w'' :=
  MapLoop.Kept.trans CWalletTx.Evolves.trans h h'

theorem Evolves.mono {c' : COutPoint → Prop} (hsub : ∀ o, c o → c' o) (h : w.Evolves c f w') :
    w.Evolves c' f w' :=
  MapLoop.Kept.mono (fun hwtx => hwtx.mono fun _ => hsub _) h

theorem Evolves.output_eq (h : w.Evolves c f w') (o : COutPoint) : w'.output o = w.output o := by
  unfold output
  cases hlookup : w.mapWallet.lookup o.hash with
  | none => rw [h.absent _ hlookup]
  | some wtx =>
    obtain ⟨wtx', hlookup', hwtx⟩ := h.present _ wtx hlookup
    rw [hlookup', Option.bind_some, Option.bind_some, hwtx.tx]

theorem isFromMe_congr (h : ∀ o, w'.output o = w.output o) (ctx : WalletCtx) (tx : CTransaction) :
    w'.isFromMe ctx tx = w.isFromMe ctx tx := by
  have hdebit (filter : Nat) : w'.addDebit ctx filter = w.addDebit ctx filter := by
    funext nDebit txin
    rw [addDebit, addDebit, getDebitIn, getDebitIn, h]
  rw [isFromMe, isFromMe, getDebit, getDebit, hdebit]

theorem Evolves.unmarked (h : w.Evolves c f w') {o : COutPoint} (ho : w.Unmarked o) : w'.Unmarked o := by
  intro prev' hlookup' hrange
  obtain ⟨prev, hlookup, hprev⟩ := h.source hlookup'
  rw [hprev.tx] at hrange
  by_contra hmark
  have hmark' := hprev.lost o.n hrange (Bool.not_eq_false _ ▸ hmark)
  exact Bool.false_ne_true ((ho prev hlookup hrange).symm.trans hmark')

theorem evolves_insert {hash : Uint256} {wtx wtx' : CWalletTx} (hlookup : w.mapWallet.lookup hash = some wtx)
    (hf : ∀ k ≠ hash, f k = id) (h : wtx.Evolves (fun n => c ⟨hash, n⟩) (f hash) wtx')
    (hmap : w'.mapWallet = w.mapWallet.insert hash wtx') : w.Evolves c f w' := by
  unfold Evolves
  rw [hmap]
  refine MapLoop.Kept.insert (fun k u hk => ?_) hlookup h
  rw [hf k hk]
  exact CWalletTx.Evolves.refl u

theorem evolves_markDirtyAt (w : CWallet) (hash : Uint256) :
    w.Evolves c (fun _ => id) (w.markDirtyAt hash) := by
  unfold markDirtyAt
  split
  · exact Evolves.refl w
  · next wtx hlookup =>
    exact evolves_insert hlookup (fun _ _ => rfl) (CWalletTx.evolves_markDirty wtx) rfl

theorem evolves_foldl_markDirtyAt (hashes : List Uint256) :
    ∀ w : CWallet, w.Evolves c (fun _ => id) (hashes.foldl markDirtyAt w) := by
  induction hashes with
  | nil => exact fun w => Evolves.refl w
  | cons hash hashes ih => exact fun w => (evolves_markDirtyAt w hash).trans (ih _)

theorem disableInput_spec (ctx : WalletCtx) (w : CWallet) (txin : CTxIn) :
    w.Evolves (fun o => o = txin.prevout ∧ w.IsOwn ctx o) (fun _ => id) (w.disableInput ctx txin) ∧
      (w.IsOwn ctx txin.prevout → (w.disableInput ctx txin).Unmarked txin.prevout) := by
  unfold disableInput IsOwn output
  cases hlookup : w.mapWallet.lookup txin.prevout.hash with
  | none => exact ⟨Evolves.refl w, fun ⟨_, hout, _⟩ => by cases hout⟩
  | some prev =>
    dsimp only [Option.bind_some]
    cases hout : prev.tx.vout[txin.prevout.n]? with
    | none => exact ⟨Evolves.refl w, fun ⟨_, hout, _⟩ => by cases hout⟩
    | some txout =>
      dsimp only
      split
      · next hnotMine =>
        refine ⟨Evolves.refl w, fun ⟨txout', hout, hmine⟩ => ?_⟩
        obtain rfl := Option.some.inj hout
        exact absurd hnotMine hmine
      · cases hmark : prev.markUnspent txin.prevout.n with
        | none =>
          have hrange : txin.prevout.n < prev.tx.vout.length := (List.getElem?_eq_some_iff.mp hout).1
          rw [CWalletTx.markUnspent, CWalletTx.setSpent, if_neg (not_le.mpr hrange)] at hmark
          dsimp only at hmark
          split at hmark <;> cases hmark
        | some prev' =>
          have hmine : w.IsOwn ctx txin.prevout := ⟨txout, by rw [output, hlookup]; exact hout, ‹_›⟩
          refine ⟨evolves_insert hlookup (fun _ _ => rfl)
            ((CWalletTx.evolves_markUnspent hmark).mono ?_) rfl, fun _ prev'' hlookup'' _ => ?_⟩
          · rintro n rfl
            exact ⟨rfl, hmine⟩
          · rw [Option.mem_def, AList.lookup_insert] at hlookup''
            obtain rfl := Option.some.inj hlookup''
            exact (CWalletTx.setSpent_spec hmark).2.2

theorem Evolves.isOwn_iff (h : w.Evolves c f w') (o : COutPoint) : w'.IsOwn ctx o ↔ w.IsOwn ctx o := by
  rw [IsOwn, IsOwn, h.output_eq]

theorem foldl_disableInput_spec (ctx : WalletCtx) (vin : List CTxIn) :
    ∀ w : CWallet, w.Evolves (fun o => o ∈ vin.map CTxIn.prevout ∧ w.IsOwn ctx o) (fun _ => id)
        (vin.foldl (disableInput ctx) w) ∧
      ∀ o ∈ vin.map CTxIn.prevout, w.IsOwn ctx o → (vin.foldl (disableInput ctx) w).Unmarked o := by
  induction vin with
  | nil => exact fun w => ⟨Evolves.refl w, List.forall_mem_nil _⟩
  | cons txin vin ih =>
    intro w
    obtain ⟨hevolves, hunmarked⟩ := disableInput_spec ctx w txin
    obtain ⟨hevolves', hunmarked'⟩ := ih (w.disableInput ctx txin)
    refine ⟨(hevolves.mono ?_).trans (hevolves'.mono ?_), ?_⟩
    · rintro o ⟨rfl, hown⟩
      exact ⟨List.mem_cons_self, hown⟩
    · rintro o ⟨hmem, hown⟩
      exact ⟨List.mem_cons_of_mem _ hmem, (hevolves.isOwn_iff o).mp hown⟩
    · rw [List.map_cons, List.forall_mem_cons]
      exact ⟨fun hown => hevolves'.unmarked (hunmarked hown),
        fun o ho hown => hunmarked' o ho ((hevolves.isOwn_iff o).mpr hown)⟩

/-- The inputs that a disconnected coinstake gives back. -/
def Refunds (ctx : WalletCtx) (w : CWallet) (tx : CTransaction) (o : COutPoint) : Prop :=
  tx.isCoinStake = true ∧ w.isFromMe ctx tx = some true ∧ o ∈ tx.prevouts ∧ w.IsOwn ctx o

theorem Evolves.refunds_iff (h : w.Evolves c f w') (tx : CTransaction) (o : COutPoint) :
    Refunds ctx w' tx o ↔ Refunds ctx w tx o := by
  rw [Refunds, Refunds, isFromMe_congr h.output_eq, h.isOwn_iff]

theorem syncDisconnected_spec {tx : CTransaction} (h : w.syncDisconnected ctx tx = some w') :
    w.Evolves (Refunds ctx w tx) (fun _ => id) w' ∧ ∀ o, Refunds ctx w tx o → w'.Unmarked o := by
  unfold syncDisconnected at h
  split at h
  · next hcoinstake =>
    obtain ⟨fFromMe, hfrom, h⟩ := Option.bind_eq_some_iff.mp h
    cases fFromMe with
    | false =>
      obtain rfl := Option.some.inj h
      refine ⟨Evolves.refl w, fun o ho => ?_⟩
      cases ho.2.1.symm.trans hfrom
    | true =>
      rw [if_pos rfl, disableTransaction, hcoinstake, Bool.not_true, if_neg Bool.false_ne_true, hfrom,
        Option.map_some, if_pos rfl] at h
      obtain rfl := Option.some.inj h
      obtain ⟨hevolves, hunmarked⟩ := foldl_disableInput_spec ctx tx.vin w
      exact ⟨hevolves.mono fun o ho => ⟨hcoinstake, hfrom, ho.1, ho.2⟩,
        fun o ho => hunmarked o ho.2.2.1 ho.2.2.2⟩
  · next hcoinstake =>
    obtain rfl := Option.some.inj h
    exact ⟨Evolves.refl w, fun o ho => absurd ho.1 hcoinstake⟩

/-! #### One call -/

theorem toMerkleTx_syncedTx (env : Env) (ctx : WalletCtx) (tx : CTransaction) (block : CBlock) :
    (syncedTx env ctx tx (some block)).toMerkleTx = placeIn env tx block ∧
      (syncedTx env ctx tx (some block)).fFromMe = false ∧
      (syncedTx env ctx tx (some block)).vfSpent = [] := by
  simp only [syncedTx, placeIn, CWalletTx.setMerkleBranch]
  split <;> exact ⟨rfl, rfl, rfl⟩

variable {call : SyncCall}

/-- `AddToWallet` of a transaction that is there. -/
theorem addToWallet_known (ctx : WalletCtx) {wtx : CWalletTx}
    (hlookup : w.mapWallet.lookup (env.getHash call.tx) = some wtx) :
    w.Evolves c (call.place env) (w.addToWallet env ctx (syncedTx env ctx call.tx (some call.block))).2 ∧
      ((w.addToWallet env ctx (syncedTx env ctx call.tx (some call.block))).1 = true ↔
        ctx.fWritten = true ∨ call.place env (env.getHash call.tx) wtx.toMerkleTx = wtx.toMerkleTx) := by
  obtain ⟨hplace, hfrom, hspent⟩ := toMerkleTx_syncedTx env ctx call.tx call.block
  have hmerge := CWalletTx.merge_eq wtx.markDirty hfrom hspent
  have hself : call.place env (env.getHash call.tx) =
      fun m => m.merge (syncedTx env ctx call.tx (some call.block)).toMerkleTx := by
    funext m
    rw [SyncCall.place, if_pos rfl, hplace]
  have hother : ∀ k ≠ env.getHash call.tx, call.place env k = id := by
    intro k hk
    funext m
    rw [SyncCall.place, if_neg (Ne.symm hk)]
    rfl
  have hevolves (c : Nat → Prop) : wtx.Evolves c (call.place env (env.getHash call.tx))
      (wtx.markDirty.merge (syncedTx env ctx call.tx (some call.block))).2 := by
    rw [hself]
    exact (CWalletTx.evolves_markDirty wtx).trans (CWalletTx.evolves_merge _ hfrom hspent)
  have hchanged : (wtx.markDirty.merge (syncedTx env ctx call.tx (some call.block))).1 = false ↔
      call.place env (env.getHash call.tx) wtx.toMerkleTx = wtx.toMerkleTx := by
    rw [hmerge, hself, decide_eq_false_iff_not, not_not]
    exact Iff.rfl
  have hlookup' : w.mapWallet.lookup (env.getHash (syncedTx env ctx call.tx (some call.block)).tx) =
      some wtx := by
    rw [tx_syncedTx]
    exact hlookup
  simp only [addToWallet, hlookup']
  rw [tx_syncedTx]
  split
  · next hlost =>
    rw [Bool.and_eq_true, Bool.not_eq_true'] at hlost
    refine ⟨evolves_insert hlookup hother (hevolves _) rfl, iff_of_false Bool.false_ne_true ?_⟩
    rintro (hwritten | hsame)
    · exact Bool.false_ne_true (hlost.2.symm.trans hwritten)
    · exact Bool.false_ne_true ((hchanged.mpr hsame).symm.trans hlost.1)
  · next hdone =>
    refine ⟨evolves_insert hlookup hother ((hevolves _).trans (CWalletTx.evolves_markDirty _)) rfl,
      iff_of_true rfl ?_⟩
    rw [Bool.and_eq_true, not_and, Bool.not_eq_true', Bool.not_eq_false] at hdone
    cases hfirst : (wtx.markDirty.merge (syncedTx env ctx call.tx (some call.block))).1 with
    | false => exact .inr (hchanged.mp hfirst)
    | true => exact .inl (hdone hfirst)

/-- What `SyncTransaction` does after the transaction has been added. -/
def afterAdded (env : Env) (ctx : WalletCtx) (w : CWallet) (call : SyncCall) : Option CWallet :=
  let w := (call.tx.prevouts.map COutPoint.hash).foldl markDirtyAt w
  if call.fConnect then (w.addToWalletIfInvolvingMe env ctx call.tx (some call.block)).map Prod.snd
  else w.syncDisconnected ctx call.tx

/-- A call, as a step of a run. -/
def syncStep (env : Env) (w : CWallet) (e : WalletCtx × SyncCall) : Option CWallet :=
  w.syncTransaction env e.1 e.2.tx (some e.2.block) e.2.fConnect

theorem syncStep_eq (call : SyncCall) : w.syncStep env (ctx, call) =
    (w.addToWalletIfInvolvingMe env ctx call.tx (some call.block)).bind fun r =>
      if r.1 then r.2.afterAdded env ctx call else some r.2 := by
  unfold syncStep syncTransaction afterAdded
  refine bind_congr fun r => ?_
  cases r.1 with
  | false => rfl
  | true =>
    cases call.fConnect with
    | false => rfl
    | true => exact Option.map_eq_bind.symm

theorem addToWalletIfInvolvingMe_takesUp {tx : CTransaction} {pblock : Option CBlock}
    (h : w.TakesUp env ctx tx) : w.addToWalletIfInvolvingMe env ctx tx pblock =
      some (w.addToWallet env ctx (syncedTx env ctx tx pblock)) := by
  unfold addToWalletIfInvolvingMe
  split
  · rfl
  · next hown =>
    rw [Bool.or_eq_true, not_or] at hown
    rw [(h.resolve_left hown.1).resolve_left hown.2]
    rfl

theorem Evolves.isSome (h : w.Evolves c f w') {k : Uint256} (hk : (w.mapWallet.lookup k).isSome) :
    (w'.mapWallet.lookup k).isSome := by
  obtain ⟨wtx, hwtx⟩ := Option.isSome_iff_exists.mp hk
  obtain ⟨wtx', hwtx', -⟩ := h.present k wtx hwtx
  rw [hwtx']
  rfl

theorem afterAdded_spec (hin : (w.mapWallet.lookup (env.getHash call.tx)).isSome)
    (h : w.afterAdded env ctx call = some w') :
    w.Evolves (fun o => call.fConnect = false ∧ Refunds ctx w call.tx o)
        (fun k => if call.fConnect then call.place env k else id) w' ∧
      (call.fConnect = false → ∀ o, Refunds ctx w call.tx o → w'.Unmarked o) := by
  have hdirty (c : COutPoint → Prop) := evolves_foldl_markDirtyAt (c := c)
    (call.tx.prevouts.map COutPoint.hash) w
  unfold afterAdded at h
  dsimp only at h
  cases hconnect : call.fConnect with
  | true =>
    rw [hconnect, if_pos rfl, addToWalletIfInvolvingMe_takesUp (.inl ((hdirty fun _ => False).isSome hin)),
      Option.map_some] at h
    obtain rfl := Option.some.inj h
    obtain ⟨wtx, hlookup⟩ := Option.isSome_iff_exists.mp ((hdirty fun _ => False).isSome hin)
    exact ⟨(hdirty _).trans (addToWallet_known ctx hlookup).1, fun hfalse => (nomatch hfalse)⟩
  | false =>
    rw [hconnect, if_neg Bool.false_ne_true] at h
    obtain ⟨hevolves, hunmarked⟩ := syncDisconnected_spec h
    refine ⟨(hdirty _).trans (hevolves.mono fun o ho => ⟨rfl, ?_⟩), fun _ o ho => hunmarked o ?_⟩
    · exact ((hdirty fun _ => False).refunds_iff call.tx o).mp ho
    · exact ((hdirty fun _ => False).refunds_iff call.tx o).mpr ho

/-- The inputs that a call gives back: not if `AddToWallet` fails to write what it has changed. -/
def RefundsBy (env : Env) (ctx : WalletCtx) (w : CWallet) (call : SyncCall) (o : COutPoint) : Prop :=
  call.fConnect = false ∧ Refunds ctx w call.tx o ∧ (ctx.fWritten = true ∨
    ∀ wtx ∈ w.mapWallet.lookup (env.getHash call.tx),
      call.place env (env.getHash call.tx) wtx.toMerkleTx = wtx.toMerkleTx)

/-- **A call for a transaction of the wallet** changes the place of the transaction, and takes the marks from
the inputs of a disconnected coinstake. -/
theorem syncStep_known (hin : (w.mapWallet.lookup (env.getHash call.tx)).isSome)
    (h : w.syncStep env (ctx, call) = some w') :
    w.Evolves (RefundsBy env ctx w call) (call.place env) w' ∧
      ∀ o, RefundsBy env ctx w call o → w'.Unmarked o := by
  obtain ⟨wtx, hlookup⟩ := Option.isSome_iff_exists.mp hin
  rw [syncStep_eq, addToWalletIfInvolvingMe_takesUp (.inl hin), Option.bind_some] at h
  obtain ⟨hadd, hwritten⟩ := addToWallet_known (c := RefundsBy env ctx w call) ctx hlookup
  have hwritten' : (w.addToWallet env ctx (syncedTx env ctx call.tx (some call.block))).1 = true ↔
      ctx.fWritten = true ∨ ∀ wtx ∈ w.mapWallet.lookup (env.getHash call.tx),
        call.place env (env.getHash call.tx) wtx.toMerkleTx = wtx.toMerkleTx := by
    rw [hwritten, hlookup]
    simp
  split at h
  · next hadded =>
    obtain ⟨hafter, hunmarked⟩ := afterAdded_spec (hadd.isSome hin) h
    have hback (o : COutPoint) (hconnect : call.fConnect = false)
        (ho : Refunds ctx (w.addToWallet env ctx (syncedTx env ctx call.tx (some call.block))).2 call.tx o) :
        RefundsBy env ctx w call o :=
      ⟨hconnect, (hadd.refunds_iff call.tx o).mp ho, hwritten'.mp hadded⟩
    have hplace : (fun k => (if call.fConnect then call.place env k else id) ∘ call.place env k) =
        call.place env := by
      funext k m
      cases call.fConnect with
      | false => rfl
      | true => exact call.place_place env k m
    have hboth := hadd.trans (hafter.mono fun o ho => hback o ho.1 ho.2)
    rw [hplace] at hboth
    exact ⟨hboth, fun o ho => hunmarked ho.1 o ((hadd.refunds_iff call.tx o).mpr ho.2.1)⟩
  · next hlost =>
    obtain rfl := Option.some.inj h
    exact ⟨hadd, fun o ho => absurd (hwritten'.mpr ho.2.2) hlost⟩

/-- Transactions stay in the wallet, and outputs without a mark stay without. -/
def Grows (w w' : CWallet) : Prop :=
  ∀ k wtx, w.mapWallet.lookup k = some wtx → ∃ wtx', w'.mapWallet.lookup k = some wtx' ∧
    wtx'.tx = wtx.tx ∧ ∀ n < wtx.tx.vout.length,
      wtx'.vfSpent.getD n false = true → wtx.vfSpent.getD n false = true

theorem Grows.refl (w : CWallet) : w.Grows w := fun _ wtx hlookup => ⟨wtx, hlookup, rfl, fun _ _ h => h⟩

theorem Grows.trans (h : w.Grows w') (h' : w'.Grows w'') : w.Grows w'' := by
  intro k wtx hlookup
  obtain ⟨wtx', hlookup', htx, hmarks⟩ := h k wtx hlookup
  obtain ⟨wtx'', hlookup'', htx', hmarks'⟩ := h' k wtx' hlookup'
  exact ⟨wtx'', hlookup'', htx'.trans htx, fun n hn hmark => hmarks n hn (hmarks' n (by rwa [htx]) hmark)⟩

theorem Evolves.grows (h : w.Evolves c f w') : w.Grows w' := by
  intro k wtx hlookup
  obtain ⟨wtx', hlookup', hwtx⟩ := h.present k wtx hlookup
  exact ⟨wtx', hlookup', hwtx.tx, hwtx.lost⟩

theorem syncStep_new (hnew : w.mapWallet.lookup (env.getHash call.tx) = none)
    (htakes : w.TakesUp env ctx call.tx) (h : w.syncStep env (ctx, call) = some w') :
    w.Grows w' ∧ (w'.mapWallet.lookup (env.getHash call.tx)).isSome := by
  have hgrows : w.Grows (w.addToWallet env ctx (syncedTx env ctx call.tx (some call.block))).2 ∧
      ((w.addToWallet env ctx (syncedTx env ctx call.tx (some call.block))).2.mapWallet.lookup
        (env.getHash call.tx)).isSome := by
    rcases addToWallet_spec (c := fun _ => False) env ctx w (syncedTx env ctx call.tx (some call.block)) with
      hadds | ⟨hin, -⟩
    · refine ⟨fun k wtx hlookup => ⟨wtx, ?_, rfl, fun _ _ hmark => hmark⟩, ?_⟩
      · obtain ⟨-, wtx', -, -, hmap⟩ := hadds
        rw [hmap, tx_syncedTx, AList.lookup_insert_ne, hlookup]
        rintro rfl
        rw [hnew] at hlookup
        cases hlookup
      · have hin := hadds.isSome
        rwa [tx_syncedTx] at hin
    · rw [tx_syncedTx, hnew] at hin
      cases hin
  rw [syncStep_eq, addToWalletIfInvolvingMe_takesUp htakes, Option.bind_some] at h
  split at h
  · have hafter := (afterAdded_spec hgrows.2 h).1
    exact ⟨hgrows.1.trans hafter.grows, hafter.isSome hgrows.2⟩
  · obtain rfl := Option.some.inj h
    exact hgrows

/-! #### Runs of calls -/

/-- The place of a transaction after some calls. -/
def placeAfter (env : Env) (calls : List SyncCall) (hash : Uint256) (m : CMerkleTx) : CMerkleTx :=
  calls.foldl (fun m call => call.place env hash m) m

/-- A call that adds no transaction and takes no mark. -/
structure LeavesMarks (env : Env) (w : CWallet) (e : WalletCtx × SyncCall) : Prop where
  known : w.TakesUp env e.1 e.2.tx → (w.mapWallet.lookup (env.getHash e.2.tx)).isSome
  unmarked : (w.mapWallet.lookup (env.getHash e.2.tx)).isSome →
    ∀ o, RefundsBy env e.1 w e.2 o → w.Unmarked o

theorem Evolves.of_unmarked (h : w.Evolves c f w') (hc : ∀ o, c o → w.Unmarked o) :
    w.Evolves (fun _ => False) f w' := by
  refine ⟨h.absent, fun k wtx hlookup => ?_⟩
  obtain ⟨wtx', hlookup', hwtx⟩ := h.present k wtx hlookup
  refine ⟨wtx', hlookup', hwtx.entry, hwtx.place, fun n hn _ => ?_, hwtx.lost⟩
  by_cases hcn : c ⟨k, n⟩
  · have hold : wtx.vfSpent.getD n false = false := hc _ hcn wtx hlookup hn
    rw [hold]
    by_contra hmark
    exact Bool.false_ne_true (hold.symm.trans (hwtx.lost n hn (Bool.not_eq_false _ ▸ hmark)))
  · exact hwtx.kept n hn hcn

theorem syncStep_foreign (hforeign : ¬ w.TakesUp env ctx call.tx)
    (h : w.syncStep env (ctx, call) = some w') : w' = w := by
  rcases keeps_syncTransaction h with ⟨heq, -⟩ | ⟨htakes, -⟩
  · exact heq
  · exact absurd htakes hforeign

theorem syncStep_leaves {e : WalletCtx × SyncCall} (hleaves : LeavesMarks env w e)
    (h : w.syncStep env e = some w') : w.Evolves (fun _ => False) (e.2.place env) w' := by
  obtain ⟨ctx, call⟩ := e
  cases hlookup : w.mapWallet.lookup (env.getHash call.tx) with
  | some wtx =>
    have hin : (w.mapWallet.lookup (env.getHash call.tx)).isSome := by rw [hlookup]; rfl
    exact (syncStep_known hin h).1.of_unmarked (hleaves.unmarked hin)
  | none =>
    have hforeign : ¬ w.TakesUp env ctx call.tx := by
      intro htakes
      have hin := hleaves.known htakes
      rw [hlookup] at hin
      cases hin
    obtain rfl := syncStep_foreign hforeign h
    refine ⟨fun _ hk => hk, fun k wtx hk => ⟨wtx, hk, ?_⟩⟩
    have hne : env.getHash call.tx ≠ k := by
      rintro rfl
      rw [hlookup] at hk
      cases hk
    have hplace : call.place env k = id := by
      funext m
      rw [SyncCall.place, if_neg hne]
      rfl
    rw [hplace]
    exact CWalletTx.Evolves.refl wtx

theorem syncStep_grows {e : WalletCtx × SyncCall} (h : w.syncStep env e = some w') : w.Grows w' := by
  obtain ⟨ctx, call⟩ := e
  by_cases htakes : w.TakesUp env ctx call.tx
  · cases hlookup : w.mapWallet.lookup (env.getHash call.tx) with
    | none => exact (syncStep_new hlookup htakes h).1
    | some wtx => exact (syncStep_known (by rw [hlookup]; rfl) h).1.grows
  · rw [syncStep_foreign htakes h]
    exact Grows.refl w

theorem grows_of_syncs (events : List (WalletCtx × SyncCall)) :
    ∀ {w w' : CWallet}, events.foldlM (syncStep env) w = some w' → w.Grows w' := by
  intro w w' hrun
  exact @Run.inv_of_foldlM _ _ _ w.Grows events (fun _ hinv hstep => hinv.trans (syncStep_grows hstep))
    _ _ (Grows.refl w) hrun

theorem evolves_of_syncs (events : List (WalletCtx × SyncCall)) :
    ∀ {w w' : CWallet}, events.foldlM (syncStep env) w = some w' →
      Run.EveryStep (syncStep env) (LeavesMarks env) events w →
      w.Evolves (fun _ => False) (placeAfter env (events.map Prod.snd)) w' := by
  induction events with
  | nil =>
    intro w w' hrun _
    obtain rfl := Option.some.inj hrun
    exact Evolves.refl w
  | cons e events ih =>
    intro w w' hrun hsteps
    rw [List.foldlM_cons, Option.bind_eq_bind, Option.bind_eq_some_iff] at hrun
    obtain ⟨w1, hstep, hrun⟩ := hrun
    exact (syncStep_leaves hsteps.1 hstep).trans (ih hrun (hsteps.2 w1 hstep))

/-- What has been added or has lost a mark stays different. -/
theorem everyStep_of_same (events : List (WalletCtx × SyncCall)) :
    ∀ {w w' : CWallet}, events.foldlM (syncStep env) w = some w' →
      (∀ k, w.mapWallet.lookup k = none → w'.mapWallet.lookup k = none) →
      (∀ k wtx wtx', w.mapWallet.lookup k = some wtx → w'.mapWallet.lookup k = some wtx' →
        ∀ n < wtx.tx.vout.length, wtx'.vfSpent.getD n false = wtx.vfSpent.getD n false) →
      Run.EveryStep (syncStep env) (LeavesMarks env) events w := by
  induction events with
  | nil => exact fun _ _ _ => trivial
  | cons e events ih =>
    intro w w' hrun habsent hmarks
    rw [List.foldlM_cons, Option.bind_eq_bind, Option.bind_eq_some_iff] at hrun
    obtain ⟨w1, hstep, hrun⟩ := hrun
    have hgrows := grows_of_syncs events hrun
    have hleaves : LeavesMarks env w e := by
      refine ⟨fun htakes => ?_, fun hin o hrefunds prev hprev hrange => ?_⟩
      · cases hlookup : w.mapWallet.lookup (env.getHash e.2.tx) with
        | some wtx => rfl
        | none =>
          obtain ⟨wtx, hwtx⟩ := Option.isSome_iff_exists.mp (syncStep_new hlookup htakes hstep).2
          obtain ⟨wtx', hwtx', -⟩ := hgrows _ wtx hwtx
          rw [habsent _ hlookup] at hwtx'
          cases hwtx'
      · obtain ⟨hevolves, hunmarked⟩ := syncStep_known hin hstep
        obtain ⟨prev1, hprev1, hwtx⟩ := hevolves.present _ prev hprev
        have hrange1 : o.n < prev1.tx.vout.length := by rwa [hwtx.tx]
        obtain ⟨prev', hprev', -, hlost⟩ := hgrows _ prev1 hprev1
        rw [← hmarks _ prev prev' hprev hprev' o.n hrange]
        by_contra hmark
        have hmark1 := hlost o.n hrange1 (Bool.not_eq_false _ ▸ hmark)
        exact Bool.false_ne_true ((hunmarked o hrefunds prev1 hprev1 hrange1).symm.trans hmark1)
    refine ⟨hleaves, fun w1' hstep' => ?_⟩
    obtain rfl : w1 = w1' := Option.some.inj (hstep.symm.trans hstep')
    have hevolves := syncStep_leaves hleaves hstep
    refine ih hrun (fun k hk => ?_) fun k wtx1 wtx' hk hk' n hn => ?_
    · cases hlookup : w.mapWallet.lookup k with
      | none => exact habsent k hlookup
      | some wtx =>
        obtain ⟨wtx1, hwtx1, -⟩ := hevolves.present k wtx hlookup
        rw [hk] at hwtx1
        cases hwtx1
    · obtain ⟨wtx, hwtx, hevolves1⟩ := hevolves.source hk
      rw [hevolves1.tx] at hn
      rw [hmarks k wtx wtx' hwtx hk' n hn, hevolves1.kept n hn id]

end CWallet

/-- The same transaction; the caches may differ, and `vfSpent` in its length. -/
structure CWalletTx.SameEntry (wtx wtx' : CWalletTx) : Prop where
  entry : wtx' = { wtx with vfSpent := wtx'.vfSpent, cached := wtx'.cached }
  isSpent : ∀ n, wtx'.isSpent n = wtx.isSpent n

namespace CWallet

variable {env : Env} {w w' : CWallet}

/-- The same `mapWallet`, apart from the caches. -/
def SameMapWallet (w w' : CWallet) : Prop :=
  MapLoop.Kept (fun _ => CWalletTx.SameEntry) w.mapWallet w'.mapWallet

/-- **A list of calls leaves `mapWallet` as it was** exactly if no call adds a transaction, none takes a mark
from an output that is marked, and every transaction of the wallet ends in the place where it was. -/
theorem same_iff_of_syncs (events : List (WalletCtx × SyncCall))
    (hrun : events.foldlM (syncStep env) w = some w') :
    w.SameMapWallet w' ↔ Run.EveryStep (syncStep env) (LeavesMarks env) events w ∧
      ∀ k wtx, w.mapWallet.lookup k = some wtx →
        placeAfter env (events.map Prod.snd) k wtx.toMerkleTx = wtx.toMerkleTx := by
  constructor
  · intro hsame
    have hsteps := everyStep_of_same events hrun hsame.absent fun k wtx wtx' hk hk' n hn => by
      obtain ⟨wtx'', hk'', hentry⟩ := hsame.present k wtx hk
      obtain rfl : wtx'' = wtx' := Option.some.inj (hk''.symm.trans hk')
      have htx : wtx''.tx = wtx.tx := by rw [hentry.entry]
      have hspent := hentry.isSpent n
      rw [CWalletTx.isSpent, CWalletTx.isSpent, htx, if_neg (not_le.mpr hn), if_neg (not_le.mpr hn)] at hspent
      exact Option.some.inj hspent
    refine ⟨hsteps, fun k wtx hk => ?_⟩
    obtain ⟨wtx', hk', hwtx⟩ := (evolves_of_syncs events hrun hsteps).present k wtx hk
    obtain ⟨wtx'', hk'', hentry⟩ := hsame.present k wtx hk
    obtain rfl : wtx'' = wtx' := Option.some.inj (hk''.symm.trans hk')
    rw [← hwtx.place, hentry.entry]
    rfl
  · rintro ⟨hsteps, hplaces⟩
    have hevolves := evolves_of_syncs events hrun hsteps
    refine ⟨hevolves.absent, fun k wtx hk => ?_⟩
    obtain ⟨wtx', hk', hwtx⟩ := hevolves.present k wtx hk
    have hplace : wtx'.toMerkleTx = wtx.toMerkleTx := hwtx.place.trans (hplaces k wtx hk)
    refine ⟨wtx', hk', ?_, fun n => ?_⟩
    · obtain ⟨-, hhash, hbranch, hindex⟩ := CMerkleTx.mk.inj hplace
      have hentry := hwtx.entry
      rw [hhash, hbranch, hindex] at hentry
      exact hentry
    · rw [CWalletTx.isSpent, CWalletTx.isSpent, hwtx.tx]
      split
      · rfl
      · next hrange => rw [hwtx.kept n (not_le.mp hrange) id]

/-- **The wallet after a failed `SetBestChain`.**  The calls are those of the blocks that were disconnected
and connected before the failure. -/
theorem sameMapWallet_iff_of_failed {ctx : Uint256 → Ctx} {node node' : Node} {block : CBlock}
    {pindexNew : CBlockIndex} {r : Reject}
    (hfail : setBestChain env ctx node block pindexNew = .error (r, node'))
    (events : List (WalletCtx × SyncCall))
    (hcalls : events.map Prod.snd = failedSyncs env ctx node block pindexNew)
    (hrun : events.foldlM (syncStep env) w = some w') :
    node'.walletSyncs =
        node.walletSyncs ++ (failedSyncs env ctx node block pindexNew).map SyncCall.record ∧
      (w.SameMapWallet w' ↔ Run.EveryStep (syncStep env) (LeavesMarks env) events w ∧
        ∀ k wtx, w.mapWallet.lookup k = some wtx →
          placeAfter env (failedSyncs env ctx node block pindexNew) k wtx.toMerkleTx = wtx.toMerkleTx) := by
  refine ⟨walletSyncs_failed hfail, ?_⟩
  rw [← hcalls]
  exact same_iff_of_syncs events hrun

end CWallet

/-! ### A coinstake that is given back -/

def ownStake : CTransaction :=
  { nTime := 12, vin := [⟨⟨1001, 0⟩, [], uintMax⟩], vout := [⟨0, [], -10⟩, ⟨6 * coin, [1], -10⟩] }

def ownStakeBlock : CBlock :=
  sampleBlock [{ claimingCoinbase with vout := [⟨0, [], -10⟩] }, ownStake]

def badBlock : CBlock := { hashPrevBlock := 105, nTime := 21, vtx := [] }

def badIndex : CBlockIndex :=
  { hashBlock := 121, pprev := some 105, nFile := 3, nBlockPos := 8, nHeight := 1, nChainTrust := 1 }

def ownStakeEnv : Env :=
  Env.permissive sampleTxHash sampleBlockHash (fun _ _ _ _ _ _ => true)
    (BlockFiles.ofBlocks [fundingBlock, ownStakeBlock, badBlock])

def stakeNode : Node :=
  { sampleNode [{ hashBlock := 105 }, tipIndex, badIndex] with
    pindexBest := some 120
    hashBestChain := 120 }

def stakeWallet : CWallet where
  mapWallet := AList.insert 1012 (CWalletTx.setMerkleBranch ownStakeEnv { tx := ownStake } ownStakeBlock)
    (AList.insert 1001 { tx := fundingTx, hashBlock := 105, vfSpent := [true, false] } ∅)

/-- The script `[1]` is the wallet's own, or no script is. -/
def scriptCtx (fOwn : Bool) : WalletCtx where
  isMine script := if script = [1] ∧ fOwn then ISMINE_SPENDABLE else ISMINE_NO

def stakeEvents (fOwn : Bool) : List (WalletCtx × SyncCall) :=
  (syncBlock ownStakeBlock false).map fun call => (scriptCtx fOwn, call)

/-- The branch to the bad block fails; without the keys the wallet stays as it was. -/
theorem sameMapWallet_foreign : ∃ r node' w',
    setBestChain ownStakeEnv (fun _ => sampleCtx) stakeNode badBlock badIndex = .error (r, node') ∧
    (stakeEvents false).foldlM (CWallet.syncStep ownStakeEnv) stakeWallet = some w' ∧
    stakeWallet.SameMapWallet w' := by
  have hfails : (setBestChain ownStakeEnv (fun _ => sampleCtx) stakeNode badBlock badIndex).isOk = false := by
    decide
  cases hfail : setBestChain ownStakeEnv (fun _ => sampleCtx) stakeNode badBlock badIndex with
  | ok node => rw [hfail] at hfails; cases hfails
  | error e =>
    refine ⟨e.1, e.2, _, rfl, rfl, ?_⟩
    have hcalls : (stakeEvents false).map Prod.snd =
        failedSyncs ownStakeEnv (fun _ => sampleCtx) stakeNode badBlock badIndex := by decide
    refine (CWallet.sameMapWallet_iff_of_failed hfail (stakeEvents false) hcalls rfl).2.mpr ⟨?_, ?_⟩
    · refine ⟨⟨fun htakes => absurd htakes (by decide), fun _ o ho => ?_⟩, fun w1 hw1 => ?_⟩
      · exact absurd ho.2.1.2.1 (by decide)
      · obtain rfl := Option.some.inj hw1
        exact ⟨⟨fun _ => by decide, fun _ o ho => absurd ho.2.1.2.1 (by decide)⟩,
          fun _ _ => trivial⟩
    · intro k wtx hlookup
      by_cases hk : k = 1012
      · subst hk
        obtain rfl := Option.some.inj hlookup
        decide
      · by_cases hk' : k = 1001
        · subst hk'
          obtain rfl := Option.some.inj hlookup
          decide
        · rw [stakeWallet, AList.lookup_insert_ne hk, AList.lookup_insert_ne hk'] at hlookup
          cases hlookup

/-- With the keys the failed reorganisation has taken the mark from the input of the coinstake. -/
theorem unmarked_after_failed :
    (∃ r node' w', setBestChain ownStakeEnv (fun _ => sampleCtx) stakeNode badBlock badIndex =
        .error (r, node') ∧
      (stakeEvents true).map Prod.snd =
        failedSyncs ownStakeEnv (fun _ => sampleCtx) stakeNode badBlock badIndex ∧
      (stakeEvents true).foldlM (CWallet.syncStep ownStakeEnv) stakeWallet = some w' ∧
      ((stakeWallet.mapWallet.lookup 1001).bind fun wtx => wtx.isSpent 0) = some true ∧
      ((w'.mapWallet.lookup 1001).bind fun wtx => wtx.isSpent 0) = some false) ∧
    ¬ ∀ (env : Env) (ctx : Uint256 → Ctx) (node node' : Node) (block : CBlock) (pindexNew : CBlockIndex)
        (r : Reject) (events : List (WalletCtx × SyncCall)) (w w' : CWallet),
      setBestChain env ctx node block pindexNew = .error (r, node') →
      events.map Prod.snd = failedSyncs env ctx node block pindexNew →
      events.foldlM (CWallet.syncStep env) w = some w' → w.SameMapWallet w' := by
  have hfails : (setBestChain ownStakeEnv (fun _ => sampleCtx) stakeNode badBlock badIndex).isOk = false := by
    decide
  have hcalls : (stakeEvents true).map Prod.snd =
      failedSyncs ownStakeEnv (fun _ => sampleCtx) stakeNode badBlock badIndex := by decide
  cases hfail : setBestChain ownStakeEnv (fun _ => sampleCtx) stakeNode badBlock badIndex with
  | ok node => rw [hfail] at hfails; cases hfails
  | error e =>
    refine ⟨⟨e.1, e.2, _, rfl, hcalls, rfl, by decide, by decide⟩, fun h => ?_⟩
    have hsame := h ownStakeEnv (fun _ => sampleCtx) stakeNode e.2 badBlock badIndex e.1 (stakeEvents true)
      stakeWallet _ hfail hcalls rfl
    obtain ⟨wtx', hlookup', hentry⟩ := hsame.present 1001 _ rfl
    obtain rfl := Option.some.inj hlookup'
    exact absurd (hentry.isSpent 0) (by decide)

end Sphinx
