import Mathlib.Data.ZMod.Basic
import Sphinx.Stealth

/-!
# Who can spend a stealth payment

The sender and the recipient find the same shared secret `c` and the same key `R + cG`.  The secret of the key is
`f + c` modulo the order of the curve, and it is lost when it takes fewer than 32 bytes, since it is not padded.

* `stealthSecret_comm`: the two ends.
* `addSecrets_isSome_iff`: when there is a secret.
* `stealthSpendable_iff`: when the recipient can spend.
-/

namespace Sphinx

open BigEndian

variable {ecgrp : EcGroup} {sha256 : List UInt8 → EcSecret}
variable {P : ecgrp.Point}

/-! ### Points -/

theorem pointBytes_of_ne_zero (h : P ≠ 0) : pointBytes ecgrp P = some (ecgrp.point2oct P) := by
  obtain ⟨b, bytes, heq, hb, hlen⟩ := ecgrp.point2oct_ne_zero h
  have hnum : numBytes (bin2bn (b :: bytes)) = ecCompressedSize := by rw [numBytes_bin2bn hb, hlen]; rfl
  simp only [pointBytes, point2bn, heq, if_pos hnum, bn2bin_bin2bn hb]

theorem pointBytes_zero : pointBytes ecgrp 0 = none := by
  rw [pointBytes, point2bn, ecgrp.point2oct_zero]
  exact if_neg (by decide)

theorem pointBytes_eq_some {bytes : List UInt8} :
    pointBytes ecgrp P = some bytes ↔ P ≠ 0 ∧ ecgrp.point2oct P = bytes := by
  by_cases h : P = 0
  · simp [h, pointBytes_zero]
  · simp [h, pointBytes_of_ne_zero]

theorem bn2point_point2oct (h : P ≠ 0) :
    bn2point ecgrp (bin2bn (ecgrp.point2oct P)) = some P := by
  obtain ⟨b, bytes, heq, hb, -⟩ := ecgrp.point2oct_ne_zero h
  rw [bn2point, heq, bn2bin_bin2bn hb, ← heq, ecgrp.oct2point_point2oct h]

theorem nsmul_generator_eq_zero_iff (k : Nat) : k • ecgrp.generator = 0 ↔ k % curveOrder = 0 := by
  rw [← Nat.dvd_iff_mod_eq_zero, ← ecgrp.addOrderOf_generator]
  exact addOrderOf_dvd_iff_nsmul_eq_zero.symm

theorem mod_nsmul_generator (k : Nat) : (k % curveOrder) • ecgrp.generator = k • ecgrp.generator := by
  rw [← ecgrp.addOrderOf_generator]
  exact mod_addOrderOf_nsmul _ k

/-! ### The sum of the secrets -/

theorem addSecrets_eq_some {bnSpend bnc : Nat} {s : EcSecret} (h : addSecrets bnSpend bnc = some s) :
    s.bn = (bnSpend + bnc) % curveOrder := by
  unfold addSecrets at h
  dsimp only at h
  split_ifs at h with hzero hnum
  obtain rfl := Option.some.inj h
  exact bin2bn_bn2bin _

theorem addSecrets_isSome_iff (bnSpend bnc : Nat) :
    (∃ s, addSecrets bnSpend bnc = some s) ↔ 2 ^ 248 ≤ (bnSpend + bnc) % curveOrder := by
  have hlt : (bnSpend + bnc) % curveOrder < 256 ^ 32 :=
    (Nat.mod_lt _ (by decide)).trans (by decide)
  have hnum : numBytes ((bnSpend + bnc) % curveOrder) = ecSecretSize ↔ 2 ^ 248 ≤ (bnSpend + bnc) % curveOrder := by
    rw [ecSecretSize, numBytes_eq_succ, pow_256 31]
    exact and_iff_left hlt
  unfold addSecrets
  dsimp only
  split_ifs with hzero hsize
  · rw [hzero]
    simp
  · exact ⟨fun _ => hnum.mp hsize, fun _ => ⟨_, rfl⟩⟩
  · constructor
    · rintro ⟨s, ⟨⟩⟩
    · exact fun h => absurd (hnum.mpr h) hsize

/-! ### The two ends -/

/-- A secret from 1 to the order less 1. -/
def EcSecret.InRange (s : EcSecret) : Prop := 1 ≤ s.bn ∧ s.bn < curveOrder

theorem secretToPublicKey_of_inRange {s : EcSecret} (h : s.InRange) :
    s.bn • ecgrp.generator ≠ 0 ∧
      secretToPublicKey ecgrp s = some (ecgrp.point2oct (s.bn • ecgrp.generator)) := by
  have hne : s.bn • ecgrp.generator ≠ 0 := by
    rw [Ne, nsmul_generator_eq_zero_iff, Nat.mod_eq_of_lt h.2]
    exact Nat.one_le_iff_ne_zero.mp h.1
  exact ⟨hne, pointBytes_of_ne_zero hne⟩

/-- What `SHA256` is applied to: the bytes of the point `deG`. -/
def sharedPoint (ecgrp : EcGroup) (d e : EcSecret) : List UInt8 :=
  ecgrp.point2oct ((d.bn * e.bn) • ecgrp.generator)

/-- `StealthSecret` for two secrets `d` and `e`, of which one is known and the other as its public key. -/
theorem stealthSecret_eq_some {e : EcSecret} {Q R : ecgrp.Point} (hQ : Q ≠ 0) (hR : R ≠ 0) {c : EcSecret}
    {K : List UInt8} :
    stealthSecret ecgrp sha256 e (ecgrp.point2oct Q) (ecgrp.point2oct R) = some (c, K) ↔
      e.bn • Q ≠ 0 ∧ sha256 (ecgrp.point2oct (e.bn • Q)) = c ∧ R + c.bn • ecgrp.generator ≠ 0 ∧
        ecgrp.point2oct (R + c.bn • ecgrp.generator) = K := by
  simp only [stealthSecret, bn2point_point2oct hQ, bn2point_point2oct hR, Option.bind_eq_bind, Option.bind_some,
    Option.bind_eq_some_iff, pointBytes_eq_some]
  constructor
  · rintro ⟨_, ⟨hne, rfl⟩, _, ⟨hsum, rfl⟩, heq⟩
    obtain ⟨rfl, rfl⟩ := Prod.mk.inj (Option.some.inj heq)
    exact ⟨hne, rfl, hsum, rfl⟩
  · rintro ⟨hne, rfl, hsum, rfl⟩
    exact ⟨_, ⟨hne, rfl⟩, _, ⟨hsum, rfl⟩, rfl⟩

theorem stealthSecretSpend_eq {d f : EcSecret} (hP : P ≠ 0) (hdP : d.bn • P ≠ 0) :
    stealthSecretSpend ecgrp sha256 d (ecgrp.point2oct P) f =
      stealthSharedToSecretSpend (sha256 (ecgrp.point2oct (d.bn • P))) f := by
  simp only [stealthSecretSpend, bn2point_point2oct hP, pointBytes_of_ne_zero hdP, Option.bind_eq_bind,
    Option.bind_some, stealthSharedToSecretSpend]

theorem mod_eq_of_secretToPublicKey {f g : EcSecret} {R : List UInt8} (hf : secretToPublicKey ecgrp f = some R)
    (hg : secretToPublicKey ecgrp g = some R) : f.bn % curveOrder = g.bn % curveOrder := by
  obtain ⟨hfne, hfR⟩ := pointBytes_eq_some.mp hf
  obtain ⟨hgne, hgR⟩ := pointBytes_eq_some.mp hg
  have hpoint : f.bn • ecgrp.generator = g.bn • ecgrp.generator := by
    rw [← Option.some_inj, ← ecgrp.oct2point_point2oct hfne, ← ecgrp.oct2point_point2oct hgne, hfR, hgR]
  rw [← ecgrp.addOrderOf_generator]
  exact nsmul_eq_nsmul_iff_modEq.mp hpoint

/-- The secret of a payment with the ephemeral key `P`, if it is long enough. -/
theorem stealthSecretSpend_of_long {d f c : EcSecret} {R K : List UInt8} (hP : P ≠ 0)
    (hf : secretToPublicKey ecgrp f = some R)
    (hsees : stealthSecret ecgrp sha256 d (ecgrp.point2oct P) R = some (c, K))
    (hlong : 2 ^ 248 ≤ (f.bn + c.bn) % curveOrder) :
    ∃ s, stealthSecretSpend ecgrp sha256 d (ecgrp.point2oct P) f = some s ∧ secretToPublicKey ecgrp s = some K := by
  obtain ⟨hR, rfl⟩ := pointBytes_eq_some.mp hf
  obtain ⟨hdP, rfl, hsum, rfl⟩ := (stealthSecret_eq_some hP hR).mp hsees
  obtain ⟨s, hs⟩ := (addSecrets_isSome_iff _ _).mpr hlong
  refine ⟨s, (stealthSecretSpend_eq hP hdP).trans hs, ?_⟩
  rw [← add_nsmul] at hsum ⊢
  rw [secretToPublicKey, addSecrets_eq_some hs, mod_nsmul_generator, pointBytes_of_ne_zero hsum]

/-- The recipient, with the scan secret `d` and the spend secret `f`, can spend the payment to the key `K` with the
shared secret `c` and the ephemeral key `P`. -/
structure CanSpend (ecgrp : EcGroup) (sha256 : List UInt8 → EcSecret) (d f : EcSecret) (P R : List UInt8)
    (c : EcSecret) (K : List UInt8) : Prop where
  sees : stealthSecret ecgrp sha256 d P R = some (c, K)
  spends : (f.bn + c.bn) % curveOrder ≠ 0 → ∃ s, stealthSharedToSecretSpend c f = some s ∧
    stealthSecretSpend ecgrp sha256 d P f = some s ∧ secretToPublicKey ecgrp s = some K

/-- **A stealth payment can be spent** exactly if the secret of its key takes all 32 bytes. -/
theorem stealthSpendable_iff (ecgrp : EcGroup) (sha256 : List UInt8 → EcSecret) {d f e : EcSecret} (hd : d.InRange)
    (hf : f.InRange) (he : e.InRange) : ∃ Q R P, secretToPublicKey ecgrp d = some Q ∧
      secretToPublicKey ecgrp f = some R ∧ secretToPublicKey ecgrp e = some P ∧
      ∀ c K, stealthSecret ecgrp sha256 e Q R = some (c, K) →
        (CanSpend ecgrp sha256 d f P R c K ↔
          2 ^ 248 ≤ (f.bn + (sha256 (sharedPoint ecgrp d e)).bn) % curveOrder) := by
  obtain ⟨hQ, hQkey⟩ := @secretToPublicKey_of_inRange ecgrp _ hd
  obtain ⟨hR, hRkey⟩ := @secretToPublicKey_of_inRange ecgrp _ hf
  obtain ⟨hP, hPkey⟩ := @secretToPublicKey_of_inRange ecgrp _ he
  refine ⟨_, _, _, hQkey, hRkey, hPkey, fun c K hsend => ?_⟩
  obtain ⟨heQ, hc, hsum, hK⟩ := (stealthSecret_eq_some hQ hR).mp hsend
  -- `e(dG) = d(eG) = (de)G`
  have hcomm : e.bn • d.bn • ecgrp.generator = d.bn • e.bn • ecgrp.generator := nsmul_left_comm _ _ _
  have hshared : sha256 (sharedPoint ecgrp d e) = c := by
    rw [sharedPoint, mul_nsmul', ← hcomm, hc]
  have hdP : d.bn • e.bn • ecgrp.generator ≠ 0 := by rwa [← hcomm]
  have hspend : stealthSecretSpend ecgrp sha256 d (ecgrp.point2oct (e.bn • ecgrp.generator)) f =
      stealthSharedToSecretSpend c f := by
    rw [stealthSecretSpend_eq hP hdP, ← hcomm, hc]
  have hkey : f.bn • ecgrp.generator + c.bn • ecgrp.generator = (f.bn + c.bn) • ecgrp.generator :=
    (add_nsmul _ _ _).symm
  have hne : (f.bn + c.bn) % curveOrder ≠ 0 := by
    rwa [hkey, Ne, nsmul_generator_eq_zero_iff] at hsum
  rw [hshared, ← addSecrets_isSome_iff]
  constructor
  · rintro ⟨-, hspends⟩
    obtain ⟨s, hs, -, -⟩ := hspends hne
    exact ⟨s, hs⟩
  · rintro ⟨s, hs⟩
    refine ⟨(stealthSecret_eq_some hP hR).mpr ⟨hdP, by rw [← hcomm, hc], hsum, hK⟩,
      fun _ => ⟨s, hs, by rw [hspend]; exact hs, ?_⟩⟩
    rw [secretToPublicKey, addSecrets_eq_some hs, mod_nsmul_generator, ← hkey, pointBytes_of_ne_zero hsum, hK]

/-! ### A payment that is lost -/

instance : NeZero curveOrder := ⟨by decide⟩

def zmodGroup : EcGroup where
  Point := ZMod curveOrder
  generator := 1
  addOrderOf_generator := ZMod.addOrderOf_one curveOrder
  point2oct P := if P = 0 then [0] else 2 :: (Codec.toLE 32 P.val).reverse
  oct2point
    | [] => none
    | b :: bytes => if b = 2 then some (bin2bn bytes : Nat) else none
  point2oct_zero := if_pos rfl
  point2oct_ne_zero := by
    intro P hP
    exact ⟨2, (Codec.toLE 32 P.val).reverse, if_neg hP, by decide, by rw [List.length_reverse, Codec.length_toLE]⟩
  oct2point_point2oct := by
    intro P hP
    have hlt : P.val < 256 ^ 32 := (ZMod.val_lt P).trans (by decide)
    simp [if_neg hP, bin2bn, Codec.fromLE_toLE hlt]

/-- The secret 1. -/
def secretOne : EcSecret := ⟨List.replicate 31 0 ++ [1], by decide⟩

/-- The `SHA256` of the generator of the curve, which is the public key of the secret 1. -/
def digestOfGenerator : EcSecret :=
  ⟨[15, 113, 91, 175, 93, 76, 46, 211, 41, 120, 92, 239, 41, 229, 98, 247, 52, 136, 200, 162, 187, 157, 188, 87, 0,
    179, 97, 213, 75, 155, 5, 84], by decide⟩

/-- The sum with the digest is 1, modulo the order. -/
def unluckySecret : EcSecret :=
  ⟨[240, 142, 164, 80, 162, 179, 209, 44, 214, 135, 163, 16, 214, 26, 157, 7, 134, 38, 20, 67, 243, 170, 227, 228,
    191, 30, 252, 183, 132, 155, 59, 238], by decide⟩

theorem secretOne_inRange : secretOne.InRange := ⟨by decide, by decide⟩

theorem secretOne_nsmul (P : ecgrp.Point) : secretOne.bn • P = P := by
  have hone : secretOne.bn = 1 := by decide
  rw [hone, one_nsmul]

/-- A payment with the scan secret and the ephemeral secret 1. -/
theorem stealthSecret_one {f : EcSecret} (hf : f.InRange)
    (hne : (f.bn + digestOfGenerator.bn) % curveOrder ≠ 0) : ∃ P R K,
      P = zmodGroup.point2oct (secretOne.bn • zmodGroup.generator) ∧ secretToPublicKey zmodGroup secretOne = some P ∧
      secretToPublicKey zmodGroup f = some R ∧
      stealthSecret zmodGroup (fun _ => digestOfGenerator) secretOne P R = some (digestOfGenerator, K) := by
  obtain ⟨hP, hPkey⟩ := @secretToPublicKey_of_inRange zmodGroup _ secretOne_inRange
  obtain ⟨hR, hRkey⟩ := @secretToPublicKey_of_inRange zmodGroup _ hf
  refine ⟨_, _, _, rfl, hPkey, hRkey, (stealthSecret_eq_some hP hR).mpr ⟨?_, rfl, ?_, rfl⟩⟩
  · exact fun hzero => hP ((secretOne_nsmul _).symm.trans hzero)
  · rw [← add_nsmul, Ne, nsmul_generator_eq_zero_iff]
    exact hne

/-- The spend secret is the digest. -/
theorem stealthSpendable_iff_digest : ∃ P R K,
    stealthSecret zmodGroup (fun _ => digestOfGenerator) secretOne P R = some (digestOfGenerator, K) ∧
    CanSpend zmodGroup (fun _ => digestOfGenerator) secretOne digestOfGenerator P R digestOfGenerator K := by
  have hrange : digestOfGenerator.InRange := ⟨by decide, by decide⟩
  obtain ⟨P, R, K, -, hP, hR, hsend⟩ := stealthSecret_one hrange (by decide)
  obtain ⟨Q, R', P', hQ, hR', hP', hspend⟩ :=
    stealthSpendable_iff zmodGroup (fun _ => digestOfGenerator) secretOne_inRange hrange secretOne_inRange
  obtain rfl := Option.some.inj (hQ.symm.trans hP)
  obtain rfl := Option.some.inj (hR'.symm.trans hR)
  obtain rfl := Option.some.inj (hP'.symm.trans hQ)
  exact ⟨_, _, K, hsend, (hspend _ K hsend).mpr (by decide)⟩

/-- The recipient sees the payment, and neither function gives a secret for it. -/
theorem stealth_lost : unluckySecret.InRange ∧ ∃ P R K, secretToPublicKey zmodGroup secretOne = some P ∧
    secretToPublicKey zmodGroup unluckySecret = some R ∧
    stealthSecret zmodGroup (fun _ => digestOfGenerator) secretOne P R = some (digestOfGenerator, K) ∧
    (unluckySecret.bn + digestOfGenerator.bn) % curveOrder = 1 ∧
    stealthSharedToSecretSpend digestOfGenerator unluckySecret = none ∧
    stealthSecretSpend zmodGroup (fun _ => digestOfGenerator) secretOne P unluckySecret = none := by
  have hrange : unluckySecret.InRange := ⟨by decide, by decide⟩
  have hlost : stealthSharedToSecretSpend digestOfGenerator unluckySecret = none := by decide
  obtain ⟨P, R, K, rfl, hPkey, hRkey, hsend⟩ := stealthSecret_one hrange (by decide)
  refine ⟨hrange, _, R, K, hPkey, hRkey, hsend, by decide, hlost, ?_⟩
  obtain ⟨hP, -⟩ := @secretToPublicKey_of_inRange zmodGroup _ secretOne_inRange
  rw [stealthSecretSpend_eq hP fun hzero => hP ((secretOne_nsmul _).symm.trans hzero)]
  exact hlost

end Sphinx
