import Sphinx.Equiv.Stealth
import Sphinx.ExtKey

/-!
# Extended keys: the public half

`CExtPubKey::Derive` adds to the point what `CExtKey::Derive` adds to the secret.

* `pubkeyTweakAdd_pubKey`: the two tweaks;
* `derivePath_neuter`: so, without a hardened index, both lead to the same keys.
-/

namespace Sphinx.Crypter

open BigEndian

variable {lib : CryptoLib} {hmacSha512 : List UInt8 → List UInt8 → List UInt8}

/-! ### The tweak -/

theorem pubKey_of_valid (lib : CryptoLib) {vch : EcSecret} (h : seckeyVerify vch = true) :
    vch.bn • lib.ecgrp.generator ≠ 0 ∧
      lib.pubKey vch true = lib.ecgrp.point2oct (vch.bn • lib.ecgrp.generator) := by
  have hrange : 0 < vch.bn ∧ vch.bn < curveOrder := of_decide_eq_true h
  obtain ⟨hne, hpk⟩ := @secretToPublicKey_of_inRange lib.ecgrp vch hrange
  exact ⟨hne, lib.pubKey_eq hrange.1 hrange.2 hpk⟩

/-- The two tweaks fail together, and the public one gives the key of the secret that the other one gives. -/
theorem pubkeyTweakAdd_pubKey {vch : EcSecret} (h : seckeyVerify vch = true) (tweak : List UInt8) :
    pubkeyTweakAdd lib (lib.pubKey vch true) tweak =
      (privkeyTweakAdd vch tweak).map fun vch => lib.pubKey vch.1 true := by
  obtain ⟨hne, hpk⟩ := pubKey_of_valid lib h
  unfold pubkeyTweakAdd privkeyTweakAdd
  by_cases htweak : curveOrder ≤ bin2bn tweak
  · rw [if_pos htweak, dif_pos (.inl htweak)]
    rfl
  -- the sum of the points is the point of the sum
  have hsum : vch.bn • lib.ecgrp.generator + bin2bn tweak • lib.ecgrp.generator =
      ((vch.bn + bin2bn tweak) % curveOrder) • lib.ecgrp.generator := by
    rw [mod_nsmul_generator, add_nsmul]
  rw [if_neg htweak, hpk, lib.ecgrp.oct2point_point2oct hne, Option.bind_some, hsum]
  by_cases hzero : (vch.bn + bin2bn tweak) % curveOrder = 0
  · rw [dif_pos (.inr hzero), hzero, zero_nsmul, pointBytes_zero]
    rfl
  · rw [dif_neg (not_or.mpr ⟨htweak, hzero⟩), Option.map_some]
    generalize hs : secretOf _ _ = s
    have hbn : s.1.bn = (vch.bn + bin2bn tweak) % curveOrder := by
      rw [← hs]
      exact bn_toLE (Nat.mod_lt _ (by decide))
    obtain ⟨hne', hpk'⟩ := pubKey_of_valid lib s.2
    rw [← hbn, pointBytes_of_ne_zero hne', hpk']

/-! ### Derivation -/

theorem derive_neuter (ext : CExtKey) {nChild : UInt32} (h : nChild >>> 31 = 0) :
    (ext.neuter lib).derive lib hmacSha512 nChild = (ext.derive lib hmacSha512 nChild).map (CExtKey.neuter lib) := by
  obtain ⟨nDepth, vchFingerprint, n, cc, ⟨vch, fCompressed, hvalid⟩⟩ := ext
  have hlen := lib.length_pubKey vch fCompressed
  cases fCompressed with
  | false => simp [CExtPubKey.derive, CExtKey.derive, CPubKey.derive, CKey.derive, CExtKey.neuter, CKey.getPubKey, hlen]
  | true =>
    simp only [CExtPubKey.derive, CExtKey.derive, CPubKey.derive, CKey.derive, CExtKey.neuter, CKey.getPubKey, h,
      hlen.mpr rfl, and_self, if_true, pubkeyTweakAdd_pubKey hvalid, Option.map_map]
    rfl

/-- **Public derivation follows private derivation.**  From the public half of an extended key, a path of
indices leads to the public half of what it leads to from the key itself, and fails where that one fails; it
fails for every path with a hardened index. -/
theorem derivePath_neuter (lib : CryptoLib) (hmacSha512 : List UInt8 → List UInt8 → List UInt8)
    (path : List UInt32) (ext : CExtKey) :
    path.foldlM (CExtPubKey.derive lib hmacSha512) (ext.neuter lib) =
      if path.all fun nChild => nChild >>> 31 = 0 then
        (path.foldlM (CExtKey.derive lib hmacSha512) ext).map (CExtKey.neuter lib)
      else none := by
  induction path generalizing ext with
  | nil => rfl
  | cons nChild path ih =>
    rw [List.foldlM_cons, List.foldlM_cons, List.all_cons]
    by_cases h : nChild >>> 31 = 0
    · rw [derive_neuter ext h]
      cases ext.derive lib hmacSha512 nChild with
      | none => simp
      | some child => simpa [h] using ih child
    · have hnone : (ext.neuter lib).derive lib hmacSha512 nChild = none := by
        simp [CExtPubKey.derive, CPubKey.derive, h]
      rw [hnone, if_neg (by simp [h])]
      rfl

end Sphinx.Crypter
