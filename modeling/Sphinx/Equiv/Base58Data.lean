import Sphinx.Base58Data
import Sphinx.Equiv.Base58

/-!
# The texts of addresses

* `setString_toString`: when a text is read back;
* `address_text`: a destination has one text;
* `base58Data_text_iff`: the texts of extended keys are not read back.
-/

namespace Sphinx

variable {hash : List UInt8 → Uint256} {s v : List UInt8}

theorem base58Fits_of_length (h : v.length < 2 ^ 29) : Base58Fits v := by
  have hdrop := length_dropWhile_bytes v
  have hle : (v.dropWhile (· = 0)).length ≤ v.length := (List.dropWhile_suffix _).length_le
  have hlt : base58Number v < 58 ^ (2 * v.length) := by
    have hnum := (Nat.digits_length_le_iff (b := 256) (by decide) (base58Number v)).mp (hdrop.symm.le.trans hle)
    rw [pow_mul]
    exact hnum.trans_le (Nat.pow_le_pow_left (by decide) _)
  have hdigits : (base58Digits v).length ≤ 2 * v.length := by
    rw [base58Digits, List.length_reverse]
    exact (Nat.digits_length_le_iff (by decide) _).mpr hlt
  have hzeroes : base58Zeroes v ≤ v.length := (List.takeWhile_prefix _).length_le
  exact ⟨by omega, by omega⟩

namespace CBase58Data

/-- The bytes of a text that is accepted have only this one text, but for blanks. -/
theorem toString_of_setString {n : Nat} {b58 : CBase58Data} (h : setString hash s n = .ok (some b58))
    (hzero : 0 ∉ s) : b58.toString hash = .ok (trimSpaces s) := by
  unfold setString decodeBase58CheckStr decodeBase58Check at h
  cases hd : decodeBase58 (cStr s) with
  | error e => rw [hd] at h; cases h
  | ok r =>
    rw [hd] at h
    obtain ⟨w, hw, hsplit⟩ := Option.bind_eq_some_iff.mp (Except.ok.inj h)
    obtain ⟨vchRet, rfl, hsum⟩ := Option.bind_eq_some_iff.mp hw
    split_ifs at hsplit
    obtain rfl := Option.some.inj hsplit
    rw [verifyChecksum_eq_some] at hsum
    rw [toString, encodeBase58Check, List.take_append_drop, ← hsum]
    exact (encode_decodeStr_iff hd).mpr hzero

/-- The text is read back if the version has as many bytes as the reader takes for it: one, in `SetString` of a
string, while the prefixes of the extended keys have four. -/
theorem setString_toString (hash : List UInt8 → Uint256) (b58 : CBase58Data)
    (hlen : (b58.vchVersion ++ b58.vchData).length < 2 ^ 28) (n : Nat) :
    ∃ s, b58.toString hash = .ok s ∧
      (setString hash s n = .ok (some b58) ↔ b58.vchVersion.length = n) := by
  have hfits : Base58Fits ((b58.vchVersion ++ b58.vchData) ++
      checksum hash (b58.vchVersion ++ b58.vchData)) := by
    apply base58Fits_of_length
    rw [List.length_append, length_checksum]
    omega
  obtain ⟨s, hencode, hdecode⟩ := (checkRoundTrip_iff hash _).mpr hfits
  refine ⟨s, hencode, ?_⟩
  rw [setString, hdecode]
  constructor
  · intro h
    have hsplit := Except.ok.inj h
    simp only [Option.bind_some] at hsplit
    split_ifs at hsplit with hlt
    rw [← congrArg vchVersion (Option.some.inj hsplit), List.length_take]
    omega
  · rintro rfl
    simp [Except.map]

end CBase58Data

namespace CSphinxcoinAddress

theorem get_set {testNet : Bool} {dest : CTxDestination} (h : dest.id.length = 20) :
    get testNet (set testNet dest) = some dest := by
  cases dest <;> cases testNet <;> simp_all [get, set, isValid, base58Prefix, CTxDestination.id]

theorem set_of_get {testNet : Bool} {dest : CTxDestination} {addr : CBase58Data}
    (h : get testNet addr = some dest) : addr = set testNet dest := by
  obtain ⟨vchVersion, vchData⟩ := addr
  unfold get at h
  split_ifs at h with hvalid hkey hscript <;> obtain rfl := Option.some.inj h
  · rw [set, ← hkey]
  · rw [set, ← hscript]

/-- **The text of an address.**  Every destination has a text, from which it is read back, and no other text
stands for it, but for blanks around; so the text of a script is never that of a key. -/
theorem address_text (hash : List UInt8 → Uint256) (testNet : Bool) (dest : CTxDestination)
    (hdest : dest.id.length = 20) :
    ∃ s, (set testNet dest).toString hash = .ok s ∧
      CBase58Data.setString hash s 1 = .ok (some (set testNet dest)) ∧
      get testNet (set testNet dest) = some dest ∧
      ∀ t addr, 0 ∉ t → CBase58Data.setString hash t 1 = .ok (some addr) → get testNet addr = some dest →
        trimSpaces t = s := by
  have hversion : (set testNet dest).vchVersion.length = 1 ∧ (set testNet dest).vchData = dest.id := by
    cases dest <;> exact ⟨rfl, rfl⟩
  obtain ⟨s, hs, hiff⟩ := CBase58Data.setString_toString hash (set testNet dest) (by
    rw [List.length_append, hversion.1, hversion.2, hdest]
    decide) 1
  refine ⟨s, hs, hiff.mpr hversion.1, get_set hdest, fun t addr hzero hread hget => ?_⟩
  have htext := CBase58Data.toString_of_setString hread hzero
  rw [set_of_get hget, hs] at htext
  exact (Except.ok.inj htext).symm

theorem address_text_key : ∃ s, (set false (.keyID (List.replicate 20 7))).toString (fun _ => 0) = .ok s := by
  obtain ⟨s, hs, -⟩ := address_text (fun _ => 0) false (.keyID (List.replicate 20 7)) rfl
  exact ⟨s, hs⟩

end CSphinxcoinAddress

/-- **What `SetString` of a string reads back.**  Of data of one of the kinds, all but the extended keys: of their
prefix it takes the first byte only, and the other three for data. -/
theorem base58Data_text_iff (hash : List UInt8 → Uint256) (testNet : Bool) (type : Base58Type) (code : List UInt8)
    (hcode : code.length < 2 ^ 27) :
    ∃ s, CBase58Data.toString hash ⟨base58Prefix testNet type, code⟩ = .ok s ∧
      (CBase58Data.setString hash s 1 = .ok (some ⟨base58Prefix testNet type, code⟩) ↔
        type ≠ .extPublicKey ∧ type ≠ .extSecretKey) := by
  have hversion : (base58Prefix testNet type).length ≤ 4 ∧ ((base58Prefix testNet type).length = 1 ↔
      type ≠ .extPublicKey ∧ type ≠ .extSecretKey) := by
    cases testNet <;> cases type <;> decide
  obtain ⟨s, hs, hiff⟩ := CBase58Data.setString_toString hash ⟨base58Prefix testNet type, code⟩ (by
    rw [List.length_append]
    show (base58Prefix testNet type).length + code.length < _
    omega) 1
  exact ⟨s, hs, hiff.trans hversion.2⟩

theorem base58Data_text_iff_ext : ∃ s, CBase58Data.setString (fun _ => 0) s 1 ≠
    .ok (some ⟨base58Prefix false .extSecretKey, List.replicate 74 0⟩) := by
  obtain ⟨s, -, hiff⟩ := base58Data_text_iff (fun _ => 0) false .extSecretKey (List.replicate 74 0) (by decide)
  exact ⟨s, fun h => (hiff.mp h).2 rfl⟩

end Sphinx
