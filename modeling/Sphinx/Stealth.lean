import Mathlib.GroupTheory.OrderOfElement
import Sphinx.Util.Codec

/-!
# Stealth addresses

`StealthSecret`, `StealthSecretSpend` and `StealthSharedToSecretSpend` of `stealth.cpp`.  `none` stands for a return
value other than zero; that the memory runs out is left out.
-/

namespace Sphinx

open BigEndian

/-- The order of the curve `NID_secp256k1`. -/
def curveOrder : Nat := 0xFFFFFFFFFFFFFFFFFFFFFFFFFFFFFFFEBAAEDCE6AF48A03BBFD25E8CD0364141

/-- The group of the points of the curve, with their encoding. -/
structure EcGroup where
  Point : Type
  [addCommGroup : AddCommGroup Point]
  generator : Point
  addOrderOf_generator : addOrderOf generator = curveOrder
  /-- `EC_POINT_point2oct`, with `POINT_CONVERSION_COMPRESSED` -/
  point2oct : Point → List UInt8
  /-- `EC_POINT_oct2point` -/
  oct2point : List UInt8 → Option Point
  point2oct_zero : point2oct 0 = [0]
  /-- a point is 33 bytes, and the first is 2 or 3 -/
  point2oct_ne_zero : ∀ {P}, P ≠ 0 → ∃ b bytes, point2oct P = b :: bytes ∧ b ≠ 0 ∧ bytes.length = 32
  oct2point_point2oct : ∀ {P}, P ≠ 0 → oct2point (point2oct P) = some P

attribute [instance] EcGroup.addCommGroup

structure EcSecret where
  e : List UInt8
  length_e : e.length = 32
deriving DecidableEq

def ecSecretSize : Nat := 32

def ecCompressedSize : Nat := 33

namespace EcSecret

/-- `BN_bin2bn` of a secret. -/
def bn (s : EcSecret) : Nat := bin2bn s.e

end EcSecret

section

variable (ecgrp : EcGroup) (sha256 : List UInt8 → EcSecret)

/-- `EC_POINT_bn2point`. -/
def bn2point (bn : Nat) : Option ecgrp.Point := ecgrp.oct2point (bn2bin bn)

/-- `EC_POINT_point2bn`. -/
def point2bn (P : ecgrp.Point) : Nat := bin2bn (ecgrp.point2oct P)

/-- The bytes of a point; "incorrect length" if they are not 33. -/
def pointBytes (P : ecgrp.Point) : Option (List UInt8) :=
  let bnOut := point2bn ecgrp P
  if numBytes bnOut = ecCompressedSize then some (bn2bin bnOut) else none

def secretToPublicKey (secret : EcSecret) : Option (List UInt8) :=
  pointBytes ecgrp (secret.bn • ecgrp.generator)

/-- `StealthSecret`: `sharedSOut` and `pkOut`. -/
def stealthSecret (secret : EcSecret) (pubkey pkSpend : List UInt8) : Option (EcSecret × List UInt8) := do
  let Q ← bn2point ecgrp (bin2bn pubkey)
  let vchOutQ ← pointBytes ecgrp (secret.bn • Q)
  let sharedSOut := sha256 vchOutQ
  let C := sharedSOut.bn • ecgrp.generator
  let R ← bn2point ecgrp (bin2bn pkSpend)
  let pkOut ← pointBytes ecgrp (R + C)
  return (sharedSOut, pkOut)

/-- The end of the two functions below: the sum of the secrets, modulo the order. -/
def addSecrets (bnSpend bnc : Nat) : Option EcSecret :=
  let bnSpend := (bnSpend + bnc) % curveOrder
  if bnSpend = 0 then none
  else if h : numBytes bnSpend = ecSecretSize then some ⟨bn2bin bnSpend, (length_bn2bin bnSpend).trans h⟩
  else none

def stealthSecretSpend (scanSecret : EcSecret) (ephemPubkey : List UInt8) (spendSecret : EcSecret) :
    Option EcSecret := do
  let P ← bn2point ecgrp (bin2bn ephemPubkey)
  let vchOutP ← pointBytes ecgrp (scanSecret.bn • P)
  addSecrets spendSecret.bn (sha256 vchOutP).bn

end

def stealthSharedToSecretSpend (sharedS spendSecret : EcSecret) : Option EcSecret :=
  addSecrets spendSecret.bn sharedS.bn

end Sphinx
