import Mathlib.Data.Nat.Digits.Defs
import Mathlib.Data.Nat.Size
import Sphinx.Basic

/-!
# Big numbers

`CBigNum` is an integer.  OpenSSL writes it as a string of bytes, highest first, whose first bit is the
sign; `SetCompact` and `GetCompact` keep the length and the first three bytes of that string.  The
functions of `uint256` with the same names reach the compact form by shifts.
-/

namespace Sphinx

namespace CBigNum

/-- `BN_bn2mpi`, without the four bytes that hold the length. -/
def bn2mpi (n : Int) : List Nat :=
  match (Nat.digits 256 n.natAbs).reverse with
  | [] => []
  | b :: rest =>
    if 128 ≤ b then (if n < 0 then 128 else 0) :: b :: rest
    else (if n < 0 then b + 128 else b) :: rest

/-- `BN_mpi2bn`, without the four bytes that hold the length. -/
def mpi2bn : List Nat → Int
  | [] => 0
  | b :: rest =>
    let magnitude : Int := Nat.ofDigits 256 (b % 128 :: rest).reverse
    if 128 ≤ b then -magnitude else magnitude

def setCompact (nCompact : Nat) : Int :=
  let nSize := nCompact / 2 ^ 24
  mpi2bn ([nCompact / 2 ^ 16 % 256, nCompact / 2 ^ 8 % 256, nCompact % 256].take nSize ++
    List.replicate (nSize - 3) 0)

/-- `GetCompact`; the four fields do not overlap. -/
def getCompact (n : Int) : Nat :=
  let vch := bn2mpi n
  (vch.length * 2 ^ 24 + vch.getD 0 0 * 2 ^ 16 + vch.getD 1 0 * 2 ^ 8 + vch.getD 2 0) % 2 ^ 32

/-- `getuint256`: the low 32 bytes, without the sign. -/
def getuint256 (n : Int) : Uint256 :=
  match bn2mpi n with
  | [] => 0
  | b :: rest => Nat.ofDigits 256 ((b % 128 :: rest).reverse.take 32)

/-- A turn of the loops of `setint64` and `setuint256`: `fLeadingZeroes` and the bytes written so far. -/
def putByte (fNegative : Bool) (s : Bool × List Nat) (c : Nat) : Bool × List Nat :=
  if s.1 then
    if c = 0 then s
    else if 128 ≤ c then (false, s.2 ++ [if fNegative then 128 else 0, c])
    else (false, s.2 ++ [if fNegative then c + 128 else c])
  else (false, s.2 ++ [c])

def setint64Loop (fNegative : Bool) : Nat → Nat → Bool × List Nat → Bool × List Nat
  | 0, _, s => s
  | i + 1, n, s =>
    setint64Loop fNegative i (n * 2 ^ 8 % 2 ^ 64) (putByte fNegative s (n / 2 ^ 56 % 256))

def setint64 (sn : Int) : Int :=
  if sn < 0 then
    -- the least `int64_t` has no negation, so one is added before it and one after it
    let n := ((-(sn + 1)).toNat + 1) % 2 ^ 64
    mpi2bn (setint64Loop true 8 n (true, [])).2
  else mpi2bn (setint64Loop false 8 sn.toNat (true, [])).2

/-- `setuint256`: the bytes of `n` from the last one in memory to the first. -/
def setuint256 (n : Uint256) : Int :=
  mpi2bn ((((List.range 32).map fun i => n / 256 ^ i % 256).reverse.foldl (putByte false) (true, [])).2)

end CBigNum

namespace Uint256

/-- The number that `SetCompact` sets and its two flags. -/
structure Compact where
  value : Uint256
  fNegative : Bool
  fOverflow : Bool

def setCompact (nCompact : Nat) : Compact :=
  let nSize := nCompact / 2 ^ 24
  let nWord : Nat := if nSize ≤ 3 then nCompact % 2 ^ 23 / 2 ^ (8 * (3 - nSize)) else nCompact % 2 ^ 23
  { value := if nSize ≤ 3 then nWord else nWord * 2 ^ (8 * (nSize - 3)) % 2 ^ 256
    fNegative := nWord ≠ 0 ∧ nCompact.testBit 23
    fOverflow := nWord ≠ 0 ∧ (34 < nSize ∨ 0xff < nWord ∧ 33 < nSize ∨ 0xffff < nWord ∧ 32 < nSize) }

/-- `GetCompact`: `none` when one of its assertions fails.  The fields that it joins do not overlap. -/
def getCompact (x : Uint256) (fNegative : Bool) : Option Nat := do
  let nSize := (Nat.size x + 7) / 8
  let nCompact : Nat :=
    if nSize ≤ 3 then x % 2 ^ 64 * 2 ^ (8 * (3 - nSize)) % 2 ^ 64 % 2 ^ 32
    else x / 2 ^ (8 * (nSize - 3)) % 2 ^ 64 % 2 ^ 32
  -- the bit that would be read as the sign
  let (nCompact, nSize) := if nCompact.testBit 23 then (nCompact / 2 ^ 8, nSize + 1) else (nCompact, nSize)
  guard (nCompact < 2 ^ 23)
  guard (nSize < 256)
  let sign := if fNegative ∧ nCompact % 2 ^ 23 ≠ 0 then 2 ^ 23 else 0
  return nCompact + nSize * 2 ^ 24 + sign

end Uint256

end Sphinx
