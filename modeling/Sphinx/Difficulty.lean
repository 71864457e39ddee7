import Sphinx.Bignum
import Sphinx.Chain

/-!
# Difficulty

`GetNextTargetRequired` of `proofs.cpp`, `GetLastBlockIndex` of `main.cpp` and
`CBlockIndex::GetBlockTrust`.  A block index entry is given with its chain of `pprev` pointers, as the
list of the entry and its ancestors; the empty list is the null pointer.

The two networks have the same limits and the same spacing.  A division by zero is `none`.
-/

namespace Sphinx

open CBigNum

/-- `Params().ProofOfStakeLimit()` and `Params().ProofOfWorkLimit()`. -/
def targetLimit (fProofOfStake : Bool) : Int :=
  if fProofOfStake then 2 ^ 236 - 1 else 2 ^ 240 - 1

/-- `Params().TargetSpacing()`. -/
def targetSpacing : Int := 60

/-- `Params().TargetTimespan()`. -/
def targetTimespan : Int := 10 * 60

def getLastBlockIndex : List CBlockIndex → Bool → List CBlockIndex
  | [], _ => []
  | [pindex], _ => [pindex]
  | pindex :: pprev :: rest, fProofOfStake =>
    if pindex.isProofOfStake ≠ fProofOfStake then getLastBlockIndex (pprev :: rest) fProofOfStake
    else pindex :: pprev :: rest

/-- A division, of big numbers or machine integers. -/
def divide (a b : Int) : Option Int := if b = 0 then none else some (a.tdiv b)

/-- The end of `GetNextTargetRequired`, from the time between the last two blocks of the kind and the
target of the last one. -/
def retarget (fProofOfStake : Bool) (nBits : Nat) (nActualSpacing : Int) : Option Nat := do
  let bnTargetLimit := targetLimit fProofOfStake
  let nActualSpacing := if nActualSpacing < 0 then targetSpacing else nActualSpacing
  let nInterval ← divide targetTimespan targetSpacing
  let bnNew := setCompact nBits *
    ((nInterval - 1) * targetSpacing + nActualSpacing + nActualSpacing)
  let bnNew ← divide bnNew ((nInterval + 1) * targetSpacing)
  let bnNew := if bnNew ≤ 0 ∨ bnTargetLimit < bnNew then bnTargetLimit else bnNew
  return getCompact bnNew

def getNextTargetRequired (pindexLast : List CBlockIndex) (fProofOfStake : Bool) : Option Nat :=
  match getLastBlockIndex pindexLast fProofOfStake with
  | pindexPrev :: pprev :: rest =>
    match getLastBlockIndex (pprev :: rest) fProofOfStake with
    | pindexPrevPrev :: _ :: _ =>
      retarget fProofOfStake pindexPrev.nBits
        (pindexPrev.getBlockTime - pindexPrevPrev.getBlockTime)
    | _ => some (getCompact (targetLimit fProofOfStake))
  | _ => some (getCompact (targetLimit fProofOfStake))

/-- `GetBlockTrust`, of a block with the given `nBits`. -/
def getBlockTrust (nBits : Nat) : Uint256 :=
  let bnTarget := setCompact nBits
  if bnTarget ≤ 0 then 0 else getuint256 ((2 ^ 256 : Int).tdiv (bnTarget + 1))

end Sphinx
