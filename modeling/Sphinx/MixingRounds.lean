import Sphinx.WalletCredit

/-!
# The mixing depth of an output

`CWallet::GetRealInputStashedsendRounds` of `wallet.cpp`, with its static table of what is already known.  The last
argument of the source is counted down: `left` is `16 - rounds`, so a query starts with 16.

`none` is an access outside of the outputs of a transaction.
-/

namespace Sphinx

/-- `mDenomWtxes`: transactions with the `nRounds` that are known. -/
abbrev DenomWtxes := StdMap Uint256 CTransaction

/-- `mDenomWtxes[hash].vout[nout].nRounds = nRounds`, and `nRounds` is returned. -/
def storeRounds (mDenomWtxes : DenomWtxes) (o : COutPoint) (nRounds : Int) : Option (Int × DenomWtxes) :=
  (mDenomWtxes.lookup o.hash).bind fun tx =>
    tx.vout[o.n]?.map fun txout =>
      (nRounds, mDenomWtxes.insert o.hash { tx with vout := tx.vout.set o.n { txout with nRounds := nRounds } })

/-- The variables of the loop over the inputs. -/
structure ShortestScan where
  nShortest : Int := -10
  fDenomFound : Bool := false
  mDenomWtxes : DenomWtxes

namespace CWallet

variable (isMine : CScript → Nat) (w : CWallet)

/-- One round of the loop over the inputs. -/
def scanInput (inputRounds : DenomWtxes → COutPoint → Option (Int × DenomWtxes)) (s : ShortestScan) (in2 : CTxIn) :
    Option ShortestScan :=
  if !w.isMineIn isMine in2 then some s
  else (inputRounds s.mDenomWtxes in2.prevout).map fun r =>
    if 0 ≤ r.1 ∧ (r.1 < s.nShortest ∨ s.nShortest = -10) then ⟨r.1, true, r.2⟩
    else { s with mDenomWtxes := r.2 }

/-- What is done for an output that is not known yet. -/
def newRounds (inputRounds : DenomWtxes → COutPoint → Option (Int × DenomWtxes)) (wtx : CWalletTx)
    (mDenomWtxes : DenomWtxes) (o : COutPoint) : Option (Int × DenomWtxes) :=
  match wtx.tx.vout[o.n]? with
  | none => some (-4, mDenomWtxes)
  | some txout =>
    if isCollateralAmount txout.nValue then storeRounds mDenomWtxes o (-3)
    else if !isDenominatedAmount txout.nValue then storeRounds mDenomWtxes o (-2)
    else if !(wtx.tx.vout.all fun out => isDenominatedAmount out.nValue) then storeRounds mDenomWtxes o 0
    else (wtx.tx.vin.foldlM (w.scanInput isMine inputRounds) { mDenomWtxes := mDenomWtxes }).bind fun s =>
      storeRounds s.mDenomWtxes o (if s.fDenomFound then if 15 ≤ s.nShortest then 16 else s.nShortest + 1 else 0)

def getRealInputStashedsendRounds : Nat → DenomWtxes → COutPoint → Option (Int × DenomWtxes)
  | 0, mDenomWtxes, _ => some (15, mDenomWtxes)
  | left + 1, mDenomWtxes, o =>
    match w.mapWallet.lookup o.hash with
    | none => some (14 - left, mDenomWtxes)
    | some wtx =>
      match mDenomWtxes.lookup o.hash with
      | none =>
        w.newRounds isMine (getRealInputStashedsendRounds left) wtx (mDenomWtxes.insert o.hash wtx.tx) o
      | some tx =>
        -- the index is checked in `newRounds` only
        tx.vout[o.n]?.bind fun txout =>
          if txout.nRounds ≠ -10 then some (txout.nRounds, mDenomWtxes)
          else w.newRounds isMine (getRealInputStashedsendRounds left) wtx mDenomWtxes o

/-- A query, with what the table knows afterwards. -/
def queryRounds (mDenomWtxes : DenomWtxes) (o : COutPoint) : Option (Int × DenomWtxes) :=
  w.getRealInputStashedsendRounds isMine 16 mDenomWtxes o

end CWallet

end Sphinx
