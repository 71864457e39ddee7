import Sphinx.Equiv.MasternodeLiveness
import Sphinx.Equiv.Maturity

/-!
# Masternodes without a collateral of their own

A new masternode is checked four times: the signature, the outputs of the transaction that it names, a
transaction that spends its input, and the age of the input.

* `Dsee.adds_iff`: the checks under which an announcement adds a masternode;
* `backedByCollateral_iff`: the input is the collateral of the key, and the only one that the signature
  serves for, if the key has one input to offer.
-/

namespace Sphinx

variable {menv : MasternodeEnv} {ctx : DseeCtx} {man : CMasternodeMan} {m : Dsee}

/-! ### What adds a masternode -/

theorem outpoints_add_of_new {ctx : MasternodeCtx} {mn : MasternodeEntry} (henabled : mn.isEnabled = true)
    (hnew : mn.vin.prevout ∉ man.outpoints) :
    (man.add menv ctx mn).2.outpoints = man.outpoints ++ [mn.vin.prevout] := by
  unfold CMasternodeMan.outpoints
  rw [toList_add, if_pos ⟨henabled, hnew⟩]
  exact CopyVector.map_pushBack (f := fun mn : MasternodeEntry => mn.vin.prevout)
    (prevout_copy ctx.nAdjustedTime) _ _

/-- The message adds a masternode for its outpoint. -/
def Dsee.adds (menv : MasternodeEnv) (ctx : DseeCtx) (man : CMasternodeMan) (m : Dsee) : Prop :=
  m.vin.prevout ∉ man.outpoints ∧ m.vin.prevout ∈ (man.receiveDsee menv ctx m).outpoints

theorem Dsee.adds_iff : m.adds menv ctx man ↔
    m.signed menv ctx = true ∧ m.vin.prevout ∉ man.outpoints ∧ m.inputFine ctx = true := by
  constructor
  · rintro ⟨hnew, hadded⟩
    cases hsigned : m.signed menv ctx with
    | false =>
      rw [receiveDsee_of_not_signed hsigned] at hadded
      exact absurd hadded hnew
    | true =>
      refine ⟨rfl, hnew, ?_⟩
      by_contra hinput
      rw [receiveDsee_of_signed hsigned, find_eq_none_iff.mpr hnew, if_neg hinput] at hadded
      exact hnew (by simpa using hadded)
  · rintro ⟨hsigned, hnew, hinput⟩
    refine ⟨hnew, ?_⟩
    have hlisted : ((man.find m.vin).isSome && !m.activates ctx) = false := by
      rw [find_eq_none_iff.mpr hnew]
      rfl
    rw [receiveDsee_of_signed hsigned, hlisted, if_neg Bool.false_ne_true, if_pos hinput,
      outpoints_add_of_new rfl hnew]
    exact List.mem_append_right _ (List.mem_singleton_self _)

theorem Dsee.signed_with_vin (hsigned : m.signed menv ctx = true) (vin : CTxIn) :
    { m with vin := vin }.signed menv ctx = vin.scriptSig.isEmpty := by
  obtain ⟨hsynced, htime, hpercent, hversion, hkey, hkey2, -, hverify⟩ := signed_iff.mp hsigned
  rw [Bool.eq_iff_iff, signed_iff]
  exact ⟨fun h => h.2.2.2.2.2.2.1, fun h => ⟨hsynced, htime, hpercent, hversion, hkey, hkey2, h, hverify⟩⟩

/-! ### The collateral -/

section

variable (env : Env) (node : Node) (entries : List CBlockIndex)

/-- The output itself has the value of the collateral and pays to `payee2`. -/
def HasCollateral (payee2 : CScript) (o : COutPoint) : Prop :=
  ∃ tx hashBlock txout, getTransaction env node entries o.hash = some (tx, hashBlock) ∧
    tx.vout[o.n]? = some txout ∧ paysCollateral node payee2 txout = true

/-- The input of the message is the collateral of its key, and no other input goes with its signature. -/
structure BackedByCollateral (menv : MasternodeEnv) (ctx : DseeCtx) (man : CMasternodeMan) (m : Dsee) : Prop where
  output : HasCollateral env node entries (menv.getScriptForDestination m.pubkey) m.vin.prevout
  covered : ∀ vin : CTxIn, vin.prevout ≠ m.vin.prevout → ¬{ m with vin := vin }.adds menv ctx man

/-- The key of the message has one input to offer: where another output of the transaction would do, the
output named does as well, and no other outpoint passes the checks of an input. -/
structure OneInput (menv : MasternodeEnv) (ctx : DseeCtx) (man : CMasternodeMan) (m : Dsee) : Prop where
  own : ∀ n ≠ m.vin.prevout.n,
    HasCollateral env node entries (menv.getScriptForDestination m.pubkey) ⟨m.vin.prevout.hash, n⟩ →
      HasCollateral env node entries (menv.getScriptForDestination m.pubkey) m.vin.prevout
  other : ∀ vin : CTxIn, vin.scriptSig.isEmpty = true → vin.prevout ∉ man.outpoints →
    { m with vin := vin }.inputFine ctx = true → vin.prevout = m.vin.prevout

end

variable {env : Env} {node : Node} {entries : List CBlockIndex}

theorem isVinAssociatedWithPubkey_iff {vin : CTxIn} {payee2 : CScript} :
    CStashedSendSigner.isVinAssociatedWithPubkey env node entries vin payee2 = true ↔
      ∃ n, HasCollateral env node entries payee2 ⟨vin.prevout.hash, n⟩ := by
  unfold CStashedSendSigner.isVinAssociatedWithPubkey HasCollateral
  constructor
  · intro h
    split at h
    · cases h
    · next tx hashBlock hget =>
      obtain ⟨txout, hmem, hpays⟩ := List.any_eq_true.mp h
      obtain ⟨n, hn⟩ := List.mem_iff_getElem?.mp hmem
      exact ⟨n, tx, hashBlock, txout, hget, hn, hpays⟩
  · rintro ⟨n, tx, hashBlock, txout, hget, hn, hpays⟩
    rw [hget]
    exact List.any_eq_true.mpr ⟨txout, List.mem_iff_getElem?.mpr ⟨n, hn⟩, hpays⟩

/-- **The collateral** of a masternode that is added is its own output, and its signature serves for no
other one, if and only if the key has one input to offer. -/
theorem backedByCollateral_iff (dsee : DseeCtx) (nctx : Ctx) (collateralPubKey : CScript) :
    (m.adds menv (dsee.onNode env node entries menv nctx collateralPubKey) man →
      BackedByCollateral env node entries menv (dsee.onNode env node entries menv nctx collateralPubKey) man m) ↔
    (m.signed menv (dsee.onNode env node entries menv nctx collateralPubKey) = true →
      m.vin.prevout ∉ man.outpoints →
      m.inputFine (dsee.onNode env node entries menv nctx collateralPubKey) = true →
      OneInput env node entries menv (dsee.onNode env node entries menv nctx collateralPubKey) man m) := by
  generalize hctx : dsee.onNode env node entries menv nctx collateralPubKey = ctx
  constructor
  · intro h hsigned hnew hinput
    obtain ⟨houtput, hcovered⟩ := h (Dsee.adds_iff.mpr ⟨hsigned, hnew, hinput⟩)
    refine ⟨fun _ _ _ => houtput, fun vin hscript hlisted hfine => ?_⟩
    by_contra hne
    exact hcovered vin hne (Dsee.adds_iff.mpr ⟨(Dsee.signed_with_vin hsigned vin).trans hscript, hlisted, hfine⟩)
  · intro h hadds
    obtain ⟨hsigned, hnew, hinput⟩ := Dsee.adds_iff.mp hadds
    obtain ⟨hown, hother⟩ := h hsigned hnew hinput
    constructor
    · have hassociated := (inputFine_iff.mp hinput).1
      rw [← hctx] at hassociated
      obtain ⟨n, hn⟩ := isVinAssociatedWithPubkey_iff.mp hassociated
      by_cases heq : n = m.vin.prevout.n
      · rwa [heq] at hn
      · exact hown n heq hn
    · intro vin hne hvin
      obtain ⟨hsigned', hlisted, hfine⟩ := Dsee.adds_iff.mp hvin
      rw [Dsee.signed_with_vin hsigned] at hsigned'
      exact hne (hother vin hsigned' hlisted hfine)

/-! ### A collateral that two masternodes share -/

def collateralEnv : MasternodeEnv :=
  { liveEnv with getScriptForDestination := fun pubkey => List.replicate 24 0 ++ pubkey.take 1 }

/-- Two collaterals in one transaction, the first one for the key 2, the second one for the key 9. -/
def collateralTx : CTransaction :=
  { nTime := 50, vin := [⟨⟨7, 0⟩, [], uintMax⟩],
    vout := [⟨10000 * coin, List.replicate 24 0 ++ [2], -10⟩,
      ⟨10000 * coin, List.replicate 24 0 ++ [9], -10⟩] }

/-- The block at the height 1, with the transaction. -/
def collateralBlock : CBlock := { lineBlock 1 with vtx := [lineTx 1, collateralTx] }

def chainEnv : Env :=
  Env.permissive sampleTxHash sampleBlockHash (fun _ _ _ _ _ _ => true)
    (BlockFiles.ofBlocks ((List.range 10).map fun k => if k = 1 then collateralBlock else lineBlock k))

def chainNode : Node :=
  { placedNode 9 with
    txdb := ⟨Function.update (fun _ => none) (.tx 1050)
      (some (.txIndex (CTxIndex.mk' (.pos 2 8 (8 + collateralBlock.txOffset 1)) 2))), none⟩ }

def chainCtx : Ctx := { sampleCtx with nAdjustedTime := 1000 }

/-- An announcement for the output `n`, signed with the key 2. -/
def sharedDsee (n : Nat) : Dsee :=
  let m : Dsee := ⟨⟨⟨1050, n⟩, [], uintMax⟩, ⟨[10, 0, 0, 1], 9999⟩, [], 990,
    [2], [3], -1, 0, 0, 61403, [], 0⟩
  { m with vchSig := [2] ++ (m.strMessage collateralEnv).map fun c => UInt8.ofNat c.toNat }

/-- **A foreign collateral.**  The second output belongs to another key.  The announcement that names it is
accepted, with the signature that announces the first output too. -/
theorem sharedDsee_not_backed :
    (sharedDsee 1).adds collateralEnv
      ((liveCtx 1000).onNode chainEnv chainNode [] collateralEnv chainCtx [1]) {} ∧
    (sharedDsee 0).adds collateralEnv
      ((liveCtx 1000).onNode chainEnv chainNode [] collateralEnv chainCtx [1]) {} ∧
    (sharedDsee 0).vchSig = (sharedDsee 1).vchSig ∧
    ¬HasCollateral chainEnv chainNode [] (collateralEnv.getScriptForDestination [2]) ⟨1050, 1⟩ ∧
    ¬BackedByCollateral chainEnv chainNode [] collateralEnv
      ((liveCtx 1000).onNode chainEnv chainNode [] collateralEnv chainCtx [1]) {} (sharedDsee 1) := by
  have hget : (getTransaction chainEnv chainNode [] 1050).map Prod.fst = some collateralTx := by decide
  have hnot : ¬HasCollateral chainEnv chainNode [] (collateralEnv.getScriptForDestination [2]) ⟨1050, 1⟩ := by
    rintro ⟨tx, hashBlock, txout, hfound, hout, hpays⟩
    rw [hfound] at hget
    obtain rfl := Option.some.inj hget
    obtain rfl := Option.some.inj hout
    revert hpays
    decide
  refine ⟨?_, ?_, rfl, hnot, fun h => hnot h.output⟩
  · constructor <;> decide
  · constructor <;> decide

end Sphinx
