import Sphinx.Crypter
import Sphinx.Equiv.Stealth
import Sphinx.Util.Loop
import Sphinx.Util.Run

/-!
# Locked wallets that receive

A stealth payment that is found while the wallet is locked leaves an entry without a secret, which the next `Unlock`
completes; but before, `Unlock` tries the master key on the entry with the least id.

* `Sound`: every entry has its secret, or can be given one;
* `unlockStealthAddresses_spec`: after it, every entry has;
* `unlock_recovers_iff`: in every state of a run, the passphrase unlocks and gives all keys exactly if the first entry
  has its secret.
-/

namespace Sphinx.Crypter

variable {lib : CryptoLib} {K : CKeyingMaterial}
variable {g : CStealthAddress → CStealthAddress} {id : CKeyID}

/-! ### Secrets -/

theorem encryptSecret_eq_some {m iv c : List UInt8} : encryptSecret lib K m iv = some c ↔
    (K.length = WALLET_CRYPTO_KEY_SIZE ∧ iv.length = WALLET_CRYPTO_KEY_SIZE) ∧ lib.encrypt K iv m = c := by
  unfold encryptSecret CCrypter.setKey
  split_ifs with h
  · simp only [Option.map_none, reduceCtorEq, false_iff]
    rintro ⟨⟨hK, hiv⟩, -⟩
    exact h.elim (absurd hK) (absurd hiv)
  · rw [not_or, not_not, not_not] at h
    simp only [Option.map_some, Option.some.injEq, CCrypter.encrypt]
    exact (and_iff_right h).symm

theorem decryptSecret_of_length {iv : List UInt8} (hK : K.length = WALLET_CRYPTO_KEY_SIZE)
    (hiv : iv.length = WALLET_CRYPTO_KEY_SIZE) (c : List UInt8) : decryptSecret lib K c iv = lib.decrypt K iv c := by
  unfold decryptSecret CCrypter.setKey
  rw [if_neg (not_or.mpr ⟨not_not.mpr hK, not_not.mpr hiv⟩)]
  rfl

theorem decryptSecret_encryptSecret {m iv c : List UInt8} (h : encryptSecret lib K m iv = some c) :
    decryptSecret lib K c iv = some m := by
  obtain ⟨⟨hK, hiv⟩, rfl⟩ := encryptSecret_eq_some.mp h
  rw [decryptSecret_of_length hK hiv]
  exact lib.decrypt_encrypt K iv m

theorem decryptSecret_nil (K : CKeyingMaterial) (iv : List UInt8) : decryptSecret lib K [] iv = none := by
  unfold decryptSecret CCrypter.setKey
  split_ifs
  · rfl
  · exact lib.decrypt_nil K iv

theorem ne_nil_of_encryptSecret {m iv c : List UInt8} (h : encryptSecret lib K m iv = some c) : c ≠ [] := by
  rintro rfl
  have hsome := decryptSecret_encryptSecret h
  rw [decryptSecret_nil] at hsome
  cases hsome

theorem encryptSecret_hash (hK : K.length = WALLET_CRYPTO_KEY_SIZE) (m vch : List UInt8) :
    ∃ c, encryptSecret lib K m (lib.hash vch) = some c :=
  ⟨_, encryptSecret_eq_some.mpr ⟨⟨hK, lib.length_hash vch⟩, rfl⟩⟩

/-! ### Keys -/

theorem CKey.set_vch (key : CKey) : CKey.set key.vch.e key.fCompressed = some key := by
  obtain ⟨⟨e, hlen⟩, fCompressed, hvalid⟩ := key
  exact (dif_pos (show e.length = ecSecretSize from hlen)).trans (dif_pos hvalid)

theorem CKey.set_eq_some {vch : List UInt8} {fCompressed : Bool} {key : CKey} :
    CKey.set vch fCompressed = some key ↔ key.vch.e = vch ∧ key.fCompressed = fCompressed := by
  constructor
  · intro h
    unfold CKey.set at h
    split_ifs at h
    obtain rfl := Option.some.inj h
    exact ⟨rfl, rfl⟩
  · rintro ⟨rfl, rfl⟩
    exact key.set_vch

theorem isCompressed_getPubKey (key : CKey) : isCompressed (key.getPubKey lib) = key.fCompressed := by
  rw [isCompressed, CKey.getPubKey, Bool.eq_iff_iff, decide_eq_true_iff]
  exact lib.length_pubKey _ _

theorem isValid_getPubKey (key : CKey) : CPubKey.isValid (key.getPubKey lib) = true := by
  rw [CPubKey.isValid, Bool.not_eq_true', List.isEmpty_eq_false_iff]
  exact lib.pubKey_ne_nil _ _

theorem seckeyVerify_addSecrets {bnSpend bnc : Nat} {s : EcSecret} (h : addSecrets bnSpend bnc = some s) :
    seckeyVerify s = true := by
  have hbn := addSecrets_eq_some h
  have hlt : s.bn < curveOrder := hbn ▸ Nat.mod_lt _ (by decide)
  have hpos : 0 < s.bn := by
    rw [hbn, Nat.pos_iff_ne_zero]
    intro hzero
    simp [addSecrets, hzero] at h
  exact decide_eq_true ⟨hpos, hlt⟩

theorem seckeyVerify_stealthSecretSpend {scan f s : EcSecret} {pkEphem : List UInt8}
    (h : stealthSecretSpend lib.ecgrp lib.sha256 scan pkEphem f = some s) : seckeyVerify s = true := by
  unfold stealthSecretSpend at h
  simp only [Option.bind_eq_bind, Option.bind_eq_some_iff] at h
  obtain ⟨_, -, _, -, hadd⟩ := h
  exact seckeyVerify_addSecrets hadd

/-- The key that is set to a valid secret, as compressed, has the public key that `SecretToPublicKey` gives. -/
theorem CKey.set_secret {s : EcSecret} {pk : List UInt8} (hvalid : seckeyVerify s = true)
    (hpk : secretToPublicKey lib.ecgrp s = some pk) :
    ∃ key, CKey.set s.e true = some key ∧ key.getPubKey lib = pk := by
  refine ⟨⟨s, true, hvalid⟩, CKey.set_vch ⟨s, true, hvalid⟩, ?_⟩
  obtain ⟨hpos, hlt⟩ := of_decide_eq_true hvalid
  exact lib.pubKey_eq hpos hlt hpk

theorem pubKeyOfVch_eq_self {vch : List UInt8} (h : CPubKey.isValid (pubKeyOfVch vch) = true) :
    pubKeyOfVch vch = vch := by
  unfold pubKeyOfVch at h ⊢
  dsimp only at h ⊢
  split_ifs at h ⊢
  · rfl
  · cases h

/-! ### Entries -/

/-- The entry has the secret of its key, under the master key. -/
def Complete (lib : CryptoLib) (K : CKeyingMaterial) (vchPubKey : CPubKey) (vchCryptedSecret : List UInt8) : Prop :=
  ∃ key : CKey, encryptSecret lib K key.vch.e (lib.hash vchPubKey) = some vchCryptedSecret ∧
    key.getPubKey lib = vchPubKey

/-- The spend secret of the address is encrypted. -/
def CStealthAddress.HasCipher (lib : CryptoLib) (K : CKeyingMaterial) (sxAddr : CStealthAddress) : Prop :=
  ∃ f : EcSecret, secretToPublicKey lib.ecgrp f = some sxAddr.spend_pubkey ∧
    encryptSecret lib K f.e (lib.hash sxAddr.spend_pubkey) = some sxAddr.spend_secret

/-- The spend secret of the address is there. -/
def CStealthAddress.HasSecret (lib : CryptoLib) (sxAddr : CStealthAddress) : Prop :=
  ∃ f : EcSecret, secretToPublicKey lib.ecgrp f = some sxAddr.spend_pubkey ∧ sxAddr.spend_secret = f.e

def CStealthAddress.Owned (sxAddr : CStealthAddress) : Prop := sxAddr.scan_secret.length = ecSecretSize

/-- A key without a secret, of a stealth payment: its secret can be made from the one of its stealth address. -/
def Pending (lib : CryptoLib) (mapStealthKeyMeta : StdMap CKeyID CStealthKeyMetadata)
    (stealthAddresses : List CStealthAddress) (vchPubKey : CPubKey) : Prop :=
  ∃ sxKeyMeta, mapStealthKeyMeta.lookup (getID lib vchPubKey) = some sxKeyMeta ∧
    ∃ si ∈ stealthAddresses, si.scan_pubkey = sxKeyMeta.pkScan ∧ ∃ scan : EcSecret, si.scan_secret = scan.e ∧
      ∀ f, secretToPublicKey lib.ecgrp f = some si.spend_pubkey →
        ∃ s, stealthSecretSpend lib.ecgrp lib.sha256 scan sxKeyMeta.pkEphem f = some s ∧
          secretToPublicKey lib.ecgrp s = some vchPubKey

theorem Complete.ne_nil {pk c : List UInt8} (h : Complete lib K pk c) : c ≠ [] := by
  obtain ⟨key, henc, -⟩ := h
  exact ne_nil_of_encryptSecret henc

theorem Complete.decrypt {pk c : List UInt8} (h : Complete lib K pk c) :
    ∃ key : CKey, decryptSecret lib K c (lib.hash pk) = some key.vch.e ∧
      CKey.set key.vch.e (isCompressed pk) = some key ∧ key.getPubKey lib = pk := by
  obtain ⟨key, henc, rfl⟩ := h
  exact ⟨key, decryptSecret_encryptSecret henc, by rw [isCompressed_getPubKey]; exact key.set_vch, rfl⟩

/-- A change of the spend secrets. -/
structure KeepsPublic (g : CStealthAddress → CStealthAddress) : Prop where
  scan_pubkey : ∀ sxAddr, (g sxAddr).scan_pubkey = sxAddr.scan_pubkey
  spend_pubkey : ∀ sxAddr, (g sxAddr).spend_pubkey = sxAddr.spend_pubkey
  scan_secret : ∀ sxAddr, (g sxAddr).scan_secret = sxAddr.scan_secret

theorem KeepsPublic.owned_iff (hg : KeepsPublic g) (sxAddr : CStealthAddress) :
    (g sxAddr).Owned ↔ sxAddr.Owned := by
  rw [CStealthAddress.Owned, CStealthAddress.Owned, hg.scan_secret]

theorem Pending.map (hg : KeepsPublic g) {metas : StdMap CKeyID CStealthKeyMetadata}
    {addrs : List CStealthAddress} {pk : CPubKey} (h : Pending lib metas addrs pk) :
    Pending lib metas (addrs.map g) pk := by
  obtain ⟨sxKeyMeta, hmetas, si, hmem, hscan, scan, hsecret, hspend⟩ := h
  refine ⟨sxKeyMeta, hmetas, g si, List.mem_map_of_mem hmem, (hg.scan_pubkey si).trans hscan, scan,
    (hg.scan_secret si).trans hsecret, fun f hf => hspend f ?_⟩
  rwa [hg.spend_pubkey] at hf

/-! ### Sound wallets -/

/-- Every key has its secret or can be given one, and the secrets of the owned stealth addresses are recorded. -/
structure Sound (lib : CryptoLib) (K : CKeyingMaterial) (keys : StdMap CKeyID (CPubKey × List UInt8))
    (metas : StdMap CKeyID CStealthKeyMetadata) (addrs : List CStealthAddress)
    (records : StdMap (List UInt8) CStealthAddress) : Prop where
  length_eq : K.length = WALLET_CRYPTO_KEY_SIZE
  getID_eq : ∀ {id pk c}, keys.lookup id = some (pk, c) → getID lib pk = id
  entry : ∀ {id pk c}, keys.lookup id = some (pk, c) → Complete lib K pk c ∨ c = [] ∧ Pending lib metas addrs pk
  nodup : (addrs.map CStealthAddress.scan_pubkey).Nodup
  scan : ∀ sxAddr ∈ addrs, sxAddr.Owned → pubKeyOfVch sxAddr.scan_pubkey = sxAddr.scan_pubkey
  secret : ∀ sxAddr ∈ addrs, sxAddr.Owned → sxAddr.HasCipher lib K ∨ sxAddr.HasSecret lib
  record : ∀ sxAddr ∈ addrs, sxAddr.Owned → ∃ r, records.lookup sxAddr.scan_pubkey = some r ∧
    { sxAddr with spend_secret := r.spend_secret }.HasCipher lib K

section Parts

variable {keys : StdMap CKeyID (CPubKey × List UInt8)} {metas : StdMap CKeyID CStealthKeyMetadata}
  {addrs : List CStealthAddress} {records : StdMap (List UInt8) CStealthAddress}

theorem Sound.map (h : Sound lib K keys metas addrs records) (hg : KeepsPublic g)
    (hsecret : ∀ sxAddr ∈ addrs, sxAddr.Owned → (g sxAddr).HasCipher lib K ∨ (g sxAddr).HasSecret lib) :
    Sound lib K keys metas (addrs.map g) records where
  length_eq := h.length_eq
  getID_eq := h.getID_eq
  entry hlook := (h.entry hlook).imp_right fun hpending => ⟨hpending.1, hpending.2.map hg⟩
  nodup := by
    have hcomp : CStealthAddress.scan_pubkey ∘ g = CStealthAddress.scan_pubkey := funext hg.scan_pubkey
    rw [List.map_map, hcomp]
    exact h.nodup
  scan := by
    simp only [List.forall_mem_map, CStealthAddress.Owned, hg.scan_pubkey, hg.scan_secret]
    exact h.scan
  secret := by
    simp only [List.forall_mem_map, CStealthAddress.Owned, hg.scan_secret]
    exact hsecret
  record := by
    rw [List.forall_mem_map]
    intro sxAddr hmem howned
    obtain ⟨r, hr, f, hf, henc⟩ := h.record sxAddr hmem ((hg.owned_iff sxAddr).mp howned)
    refine ⟨r, (hg.scan_pubkey sxAddr).symm ▸ hr, f, ?_, ?_⟩
    · exact hf.trans (congrArg some (hg.spend_pubkey sxAddr).symm)
    · rw [hg.spend_pubkey]
      exact henc

/-- The metadata of a key that is inserted may change with it. -/
theorem Sound.insert (h : Sound lib K keys metas addrs records) {pk c : List UInt8}
    {metas' : StdMap CKeyID CStealthKeyMetadata}
    (hentry : Complete lib K pk c ∨ c = [] ∧ Pending lib metas' addrs pk)
    (hmetas : ∀ id, id ≠ getID lib pk → metas'.lookup id = metas.lookup id) :
    Sound lib K (keys.insert (getID lib pk) (pk, c)) metas' addrs records where
  length_eq := h.length_eq
  getID_eq := by
    intro id pk' c' hlook
    by_cases hid : id = getID lib pk
    · subst hid
      rw [AList.lookup_insert] at hlook
      obtain ⟨rfl, rfl⟩ := Prod.mk.inj (Option.some.inj hlook)
      rfl
    · rw [AList.lookup_insert_ne hid] at hlook
      exact h.getID_eq hlook
  entry := by
    intro id pk' c' hlook
    by_cases hid : id = getID lib pk
    · subst hid
      rw [AList.lookup_insert] at hlook
      obtain ⟨rfl, rfl⟩ := Prod.mk.inj (Option.some.inj hlook)
      exact hentry
    · rw [AList.lookup_insert_ne hid] at hlook
      refine (h.entry hlook).imp_right fun hpending => ⟨hpending.1, ?_⟩
      obtain ⟨sxKeyMeta, hmeta, hrest⟩ := hpending.2
      rw [← hmetas _ (h.getID_eq hlook ▸ hid)] at hmeta
      exact ⟨sxKeyMeta, hmeta, hrest⟩
  nodup := h.nodup
  scan := h.scan
  secret := h.secret
  record := h.record

end Parts

namespace CWallet

variable {w w' : CWallet} {pass : SecureString}

abbrev Sound (lib : CryptoLib) (K : CKeyingMaterial) (w : CWallet) : Prop :=
  Crypter.Sound lib K w.mapCryptedKeys w.mapStealthKeyMeta w.stealthAddresses w.sxAddr

/-- An unlocked wallet has all secrets. -/
structure Unlocked (lib : CryptoLib) (K : CKeyingMaterial) (w : CWallet) : Prop where
  vMasterKey : w.vMasterKey = K
  complete : ∀ {id pk c}, w.mapCryptedKeys.lookup id = some (pk, c) → Complete lib K pk c
  secret : ∀ sxAddr ∈ w.stealthAddresses, sxAddr.Owned → sxAddr.HasSecret lib

/-- The master key that a passphrase gives. -/
def masterKeyOf (lib : CryptoLib) (w : CWallet) (strWalletPassphrase : SecureString) : Option CKeyingMaterial :=
  w.mapMasterKeys.head?.bind fun entry =>
    (entry.2.crypter lib strWalletPassphrase).bind fun crypter => crypter.decrypt lib entry.2.vchCryptedKey

/-- An encrypted wallet with the passphrase `pass` and the master key `K`.  `EncryptWallet` makes one master key, and
it is the only function that makes any. -/
structure Encrypted (lib : CryptoLib) (K : CKeyingMaterial) (pass : SecureString) (w : CWallet) : Prop where
  sound : w.Sound lib K
  masterKeys : ∃ entry, w.mapMasterKeys = [entry]
  masterKeyOf : w.masterKeyOf lib pass = some K
  locked : w.vMasterKey = [] ∨ w.Unlocked lib K

theorem isLocked_iff {store : CCryptoKeyStore} : store.isLocked = true ↔ store.vMasterKey = [] :=
  List.isEmpty_iff

theorem Sound.ne_nil (h : w.Sound lib K) : K ≠ [] := by
  rintro rfl
  cases h.length_eq

theorem Encrypted.unlocked (h : w.Encrypted lib K pass) (hl : ¬ w.isLocked = true) : w.Unlocked lib K :=
  h.locked.resolve_left (isLocked_iff.not.mp hl)

/-! ### `Lock` -/

/-- The loop of `Lock`. -/
def rereadSecret (records : StdMap (List UInt8) CStealthAddress) (sxAddr : CStealthAddress) : CStealthAddress :=
  if sxAddr.scan_secret.length < 32 then sxAddr
  else match records.lookup sxAddr.scan_pubkey with
    | none => sxAddr
    | some sxAddrTemp => { sxAddr with spend_secret := sxAddrTemp.spend_secret }

theorem keepsPublic_rereadSecret (records : StdMap (List UInt8) CStealthAddress) :
    KeepsPublic (rereadSecret records) := by
  constructor <;> intro sxAddr <;> unfold rereadSecret <;> split_ifs
  all_goals first | rfl | (split <;> rfl)

theorem lock_eq (hl : ¬ w.isLocked = true) :
    w.lock = { w with stealthAddresses := w.stealthAddresses.map (rereadSecret w.sxAddr), vMasterKey := [] } :=
  if_neg hl

theorem sound_lock (h : w.Sound lib K) : w.lock.Sound lib K := by
  by_cases hl : w.isLocked = true
  · rwa [lock, if_pos hl]
  · rw [lock_eq hl]
    refine h.map (keepsPublic_rereadSecret w.sxAddr) fun sxAddr hmem howned => .inl ?_
    obtain ⟨r, hr, hcipher⟩ := h.record sxAddr hmem howned
    have hlen : ¬ sxAddr.scan_secret.length < 32 := howned ▸ lt_irrefl _
    rw [rereadSecret, if_neg hlen, hr]
    exact hcipher

theorem isLocked_lock (w : CWallet) : w.lock.isLocked = true := by
  unfold lock
  split_ifs with hl
  · exact hl
  · rfl

theorem lock_mapCryptedKeys (w : CWallet) : w.lock.mapCryptedKeys = w.mapCryptedKeys := by
  unfold lock
  split_ifs <;> rfl

theorem lock_mapMasterKeys (w : CWallet) : w.lock.mapMasterKeys = w.mapMasterKeys := by
  unfold lock
  split_ifs <;> rfl

theorem Encrypted.lock (h : w.Encrypted lib K pass) : w.lock.Encrypted lib K pass where
  sound := sound_lock h.sound
  masterKeys := by
    rw [lock_mapMasterKeys]
    exact h.masterKeys
  masterKeyOf := by
    rw [CWallet.masterKeyOf, lock_mapMasterKeys]
    exact h.masterKeyOf
  locked := .inl (isLocked_iff.mp (isLocked_lock w))

/-! ### `AddKey` -/

/-- From `w` to `w'` an entry was put, and nothing else was changed that the keys depend on. -/
structure Puts (lib : CryptoLib) (pk c : List UInt8) (w w' : CWallet) : Prop where
  mapCryptedKeys : w'.mapCryptedKeys = w.mapCryptedKeys.insert (getID lib pk) (pk, c)
  vMasterKey : w'.vMasterKey = w.vMasterKey
  mapMasterKeys : w'.mapMasterKeys = w.mapMasterKeys
  stealthAddresses : w'.stealthAddresses = w.stealthAddresses
  mapStealthKeyMeta : w'.mapStealthKeyMeta = w.mapStealthKeyMeta
  sxAddr : w'.sxAddr = w.sxAddr

variable {pk c : List UInt8}

theorem puts_addCryptedKey (w : CWallet) (pk c : List UInt8) : Puts lib pk c w (w.addCryptedKey lib pk c).2 := by
  unfold addCryptedKey
  dsimp only
  split_ifs <;> exact ⟨rfl, rfl, rfl, rfl, rfl, rfl⟩

theorem addKey_of_locked (hl : w.isLocked = true) (key : CKey) : w.addKey lib key = (false, w) := if_pos hl

theorem addKey_of_unlocked (hl : ¬ w.isLocked = true) (hK : w.vMasterKey.length = WALLET_CRYPTO_KEY_SIZE)
    (key : CKey) :
    ∃ c, Complete lib w.vMasterKey (key.getPubKey lib) c ∧
      Puts lib (key.getPubKey lib) c w (w.addKey lib key).2 := by
  obtain ⟨c, henc⟩ := @encryptSecret_hash lib _ hK key.vch.e (key.getPubKey lib)
  refine ⟨c, ⟨key, henc, rfl⟩, ?_⟩
  rw [addKey, addKeyPubKey, if_neg hl, henc]
  exact puts_addCryptedKey w _ c

theorem Puts.sound (hp : Puts lib pk c w w') (h : w.Sound lib K) (hc : Complete lib K pk c) : w'.Sound lib K := by
  unfold Sound
  rw [hp.mapCryptedKeys, hp.mapStealthKeyMeta, hp.stealthAddresses, hp.sxAddr]
  exact h.insert (.inl hc) fun _ _ => rfl

/-- Of the entries, the one that is put is complete. -/
theorem Puts.complete (hp : Puts lib pk c w w') (hc : Complete lib K pk c)
    (h : id ≠ getID lib pk → ∀ {pk c}, w.mapCryptedKeys.lookup id = some (pk, c) → Complete lib K pk c)
    {pk' c' : List UInt8} (hlook : w'.mapCryptedKeys.lookup id = some (pk', c')) :
    Complete lib K pk' c' := by
  rw [hp.mapCryptedKeys] at hlook
  by_cases hid : id = getID lib pk
  · subst hid
    rw [AList.lookup_insert] at hlook
    obtain ⟨rfl, rfl⟩ := Prod.mk.inj (Option.some.inj hlook)
    exact hc
  · rw [AList.lookup_insert_ne hid] at hlook
    exact h hid hlook

theorem Puts.haveKey (hp : Puts lib pk c w w') (h : w.haveKey id = true) : w'.haveKey id = true := by
  rw [CCryptoKeyStore.haveKey, hp.mapCryptedKeys, MapLoop.isSome_lookup_insert, Bool.or_eq_true]
  exact .inl h

theorem Puts.encrypted (hp : Puts lib pk c w w') (h : w.Encrypted lib K pass) (hc : Complete lib K pk c) :
    w'.Encrypted lib K pass where
  sound := hp.sound h.sound hc
  masterKeys := by
    rw [hp.mapMasterKeys]
    exact h.masterKeys
  masterKeyOf := by
    rw [CWallet.masterKeyOf, hp.mapMasterKeys]
    exact h.masterKeyOf
  locked := by
    rw [hp.vMasterKey]
    refine h.locked.imp_right fun hu => ⟨hp.vMasterKey.trans hu.vMasterKey, ?_, ?_⟩
    · exact fun hlook => hp.complete hc (fun _ => hu.complete) hlook
    · rw [hp.stealthAddresses]
      exact hu.secret

theorem Encrypted.addKey (h : w.Encrypted lib K pass) (key : CKey) : (w.addKey lib key).2.Encrypted lib K pass := by
  by_cases hl : w.isLocked = true
  · rwa [addKey_of_locked hl]
  · have hK := (h.unlocked hl).vMasterKey
    obtain ⟨c, hc, hp⟩ := @addKey_of_unlocked lib w hl (hK ▸ h.sound.length_eq) key
    exact hp.encrypted h (hK ▸ hc)

theorem haveKey_addKey (h : w.Encrypted lib K pass) (key : CKey) (hid : w.haveKey id = true) :
    (w.addKey lib key).2.haveKey id = true := by
  by_cases hl : w.isLocked = true
  · rwa [addKey_of_locked hl]
  · obtain ⟨c, -, hp⟩ := @addKey_of_unlocked lib w hl ((h.unlocked hl).vMasterKey ▸ h.sound.length_eq) key
    exact hp.haveKey hid

/-! ### `UnlockStealthAddresses` -/

theorem keepsPublic_decryptSpendSecret (K : CKeyingMaterial) : KeepsPublic (decryptSpendSecret lib K) := by
  constructor <;> intro sxAddr <;> unfold decryptSpendSecret <;> split_ifs
  all_goals first | rfl | (split <;> [rfl; (split_ifs <;> rfl)])

theorem hasSecret_decryptSpendSecret {sxAddr : CStealthAddress} (howned : sxAddr.Owned)
    (h : sxAddr.HasCipher lib K ∨ sxAddr.HasSecret lib) : (decryptSpendSecret lib K sxAddr).HasSecret lib := by
  have hlen : ¬ sxAddr.scan_secret.length < 32 := howned ▸ lt_irrefl _
  unfold decryptSpendSecret
  rw [if_neg hlen]
  rcases h with ⟨f, hf, henc⟩ | hsecret
  · rw [decryptSecret_encryptSecret henc]
    dsimp only
    rw [dif_pos (show f.e.length = ecSecretSize from f.length_e), if_pos hf]
    exact ⟨f, hf, rfl⟩
  · split
    · exact hsecret
    · next vchSecret _ =>
      split_ifs with hlen' hpk
      · exact ⟨⟨vchSecret, hlen'⟩, hpk, rfl⟩
      · exact hsecret
      · exact hsecret

theorem find_scan_pubkey {addrs : List CStealthAddress} (hnodup : (addrs.map CStealthAddress.scan_pubkey).Nodup)
    {si : CStealthAddress} (hmem : si ∈ addrs) {pkScan : CPubKey} (hscan : si.scan_pubkey = pkScan) :
    (addrs.find? fun sxAddr => sxAddr.scan_pubkey = pkScan) = some si := by
  obtain ⟨si', hfind⟩ : ∃ si', (addrs.find? fun sxAddr => sxAddr.scan_pubkey = pkScan) = some si' :=
    Option.isSome_iff_exists.mp (List.find?_isSome.mpr ⟨si, hmem, decide_eq_true hscan⟩)
  have hscan' : si'.scan_pubkey = pkScan := by simpa using List.find?_some hfind
  obtain rfl := List.inj_on_of_nodup_map hnodup (List.mem_of_find?_eq_some hfind) hmem (hscan'.trans hscan.symm)
  exact hfind

/-- A round of the second loop leaves an entry that is complete. -/
theorem expandSecret_spec (hs : w.Sound lib w.vMasterKey)
    (hsecret : ∀ sxAddr ∈ w.stealthAddresses, sxAddr.Owned → sxAddr.HasSecret lib) (ckid : CKeyID) :
    (w.expandSecret lib ckid = w ∧
      ∀ {pk c}, w.mapCryptedKeys.lookup ckid = some (pk, c) → Complete lib w.vMasterKey pk c) ∨
    ∃ pk c, w.mapCryptedKeys.lookup ckid = some (pk, []) ∧ Complete lib w.vMasterKey pk c ∧
      Puts lib pk c w (w.expandSecret lib ckid) := by
  unfold expandSecret
  cases hlook : w.mapCryptedKeys.lookup ckid with
  | none => exact .inl ⟨rfl, fun h => (by cases h)⟩
  | some entry =>
    obtain ⟨pk, c⟩ := entry
    dsimp only
    rcases hs.entry hlook with hc | ⟨rfl, hpending⟩
    · rw [if_pos (List.length_eq_zero_iff.not.mpr hc.ne_nil)]
      refine .inl ⟨rfl, fun h => ?_⟩
      obtain ⟨rfl, rfl⟩ := Prod.mk.inj (Option.some.inj h)
      exact hc
    · obtain ⟨sxKeyMeta, hmeta, si, hmem, hscan, scan, hscanSecret, hspend⟩ := hpending
      have howned : si.Owned := (congrArg List.length hscanSecret).trans scan.length_e
      obtain ⟨f, hf, hfsecret⟩ := hsecret si hmem howned
      obtain ⟨s, hs', hspub⟩ := hspend f hf
      obtain ⟨key, hset, hkey⟩ := CKey.set_secret (seckeyVerify_stealthSecretSpend hs') hspub
      have hlen : si.spend_secret.length = ecSecretSize ∧ si.scan_secret.length = ecSecretSize :=
        ⟨(congrArg List.length hfsecret).trans f.length_e, howned⟩
      have hargs : (⟨si.scan_secret, hlen.2⟩ : EcSecret) = scan ∧
          (⟨si.spend_secret, hlen.1⟩ : EcSecret) = f := by
        obtain ⟨_, _⟩ := scan
        obtain ⟨_, _⟩ := f
        exact ⟨EcSecret.mk.injEq _ _ _ _ ▸ hscanSecret, EcSecret.mk.injEq _ _ _ _ ▸ hfsecret⟩
      have hl : ¬ w.isLocked = true := isLocked_iff.not.mpr (Sound.ne_nil hs)
      obtain ⟨c, hc, hp⟩ := @addKey_of_unlocked lib w hl hs.length_eq key
      rw [hkey] at hc hp
      refine .inr ⟨pk, c, rfl, hc, ?_⟩
      rw [if_neg (not_not.mpr List.length_nil), hmeta]
      dsimp only
      rw [find_scan_pubkey hs.nodup hmem hscan]
      dsimp only
      rw [dif_pos hlen, hargs.1, hargs.2, hs']
      dsimp only
      rw [hspub, if_neg (by simp), hset]
      dsimp only
      rw [isValid_getPubKey, if_neg (by simp), hkey, if_neg (not_not.mpr rfl)]
      exact hp

/-- From `w` on, the second loop has come to `w'` and has been at the ids `done`. -/
structure Expanding (lib : CryptoLib) (K : CKeyingMaterial) (w : CWallet) (done : List CKeyID) (w' : CWallet) :
    Prop where
  sound : w'.Sound lib K
  vMasterKey : w'.vMasterKey = K
  secret : ∀ sxAddr ∈ w'.stealthAddresses, sxAddr.Owned → sxAddr.HasSecret lib
  mapMasterKeys : w'.mapMasterKeys = w.mapMasterKeys
  getPubKey : ∀ id, w'.getPubKey id = w.getPubKey id
  complete : ∀ id ∈ done, ∀ {pk c}, w'.mapCryptedKeys.lookup id = some (pk, c) → Complete lib K pk c

theorem Expanding.round {done : List CKeyID} (h : Expanding lib K w done w') (ckid : CKeyID) :
    Expanding lib K w (done ++ [ckid]) (w'.expandSecret lib ckid) := by
  obtain rfl := h.vMasterKey
  rcases expandSecret_spec h.sound h.secret ckid with ⟨heq, hc⟩ | ⟨pk, c, hlook, hc, hp⟩
  · rw [heq]
    refine ⟨h.sound, rfl, h.secret, h.mapMasterKeys, h.getPubKey, fun id hid => ?_⟩
    rw [List.mem_append, List.mem_singleton] at hid
    rcases hid with hid | rfl
    · exact h.complete id hid
    · exact hc
  · have hid : getID lib pk = ckid := h.sound.getID_eq hlook
    refine ⟨hp.sound h.sound hc, hp.vMasterKey, ?_, hp.mapMasterKeys.trans h.mapMasterKeys, fun id => ?_, ?_⟩
    · rw [hp.stealthAddresses]
      exact h.secret
    · rw [← h.getPubKey id, CCryptoKeyStore.getPubKey, CCryptoKeyStore.getPubKey, hp.mapCryptedKeys, hid]
      by_cases hid' : id = ckid
      · subst hid'
        rw [AList.lookup_insert, hlook]
        rfl
      · rw [AList.lookup_insert_ne hid']
    · intro id hmem pk' c' hlook'
      refine hp.complete hc (fun hne => ?_) hlook'
      rw [List.mem_append, List.mem_singleton] at hmem
      exact h.complete id (hmem.resolve_right (hid ▸ hne))

/-- **After the stealth addresses are unlocked** every key has its secret. -/
theorem unlockStealthAddresses_spec (h : w.Sound lib K) (hK : w.vMasterKey = K) :
    (w.unlockStealthAddresses lib K).Sound lib K ∧ (w.unlockStealthAddresses lib K).Unlocked lib K ∧
      (w.unlockStealthAddresses lib K).mapMasterKeys = w.mapMasterKeys ∧
      ∀ id, (w.unlockStealthAddresses lib K).getPubKey id = w.getPubKey id := by
  have hkeeps := @keepsPublic_decryptSpendSecret lib K
  have hfirst : Expanding lib K w []
      { w with stealthAddresses := w.stealthAddresses.map (decryptSpendSecret lib K) } := by
    refine ⟨?_, hK, ?_, rfl, fun _ => rfl, fun _ hid => absurd hid List.not_mem_nil⟩
    · exact h.map hkeeps fun sxAddr hmem howned =>
        .inr (hasSecret_decryptSpendSecret howned (h.secret sxAddr hmem howned))
    · dsimp only
      rw [List.forall_mem_map]
      intro sxAddr hmem howned
      rw [hkeeps.owned_iff] at howned
      exact hasSecret_decryptSpendSecret howned (h.secret sxAddr hmem howned)
  have hloop : Expanding lib K w (w.mapCryptedKeys.keys.insertionSort (· ≤ ·)) (w.unlockStealthAddresses lib K) :=
    Loop.foldl_inv (Expanding lib K w) hfirst fun done ckid _ w' _ hw' => hw'.round ckid
  refine ⟨hloop.sound, ⟨hloop.vMasterKey, fun {id pk c} hlook => ?_, hloop.secret⟩, hloop.mapMasterKeys,
    hloop.getPubKey⟩
  refine hloop.complete id ?_ hlook
  rw [List.mem_insertionSort, ← AList.mem_keys, ← AList.lookup_isSome]
  have hpub := hloop.getPubKey id
  rw [CCryptoKeyStore.getPubKey, hlook] at hpub
  exact Option.isSome_iff_exists.mpr (Option.map_eq_some_iff.mp hpub.symm |>.imp fun _ h => h.1)

/-! ### `Unlock` -/

end CWallet

namespace CCryptoKeyStore

variable {store store' : CCryptoKeyStore}

/-- The master key can decrypt the first entry. -/
def Passes (lib : CryptoLib) (store : CCryptoKeyStore) (vMasterKeyIn : CKeyingMaterial) : Prop :=
  ∀ pk c, store.firstEntry = some (pk, c) → ∃ key : CKey,
    decryptSecret lib vMasterKeyIn c (lib.hash pk) = some key.vch.e ∧ key.fCompressed = isCompressed pk ∧
      key.getPubKey lib = pk

theorem unlock_of_passes {vMasterKeyIn : CKeyingMaterial} (h : store.Passes lib vMasterKeyIn) :
    store.unlock lib vMasterKeyIn = some (true, { store with vMasterKey := vMasterKeyIn }) := by
  unfold unlock
  cases hfirst : store.firstEntry with
  | none => rfl
  | some entry =>
    obtain ⟨pk, c⟩ := entry
    obtain ⟨key, hdec, hcompressed, hkey⟩ := h pk c hfirst
    dsimp only
    rw [hdec]
    dsimp only
    rw [if_neg (not_not.mpr key.vch.length_e), CKey.set_eq_some.mpr ⟨rfl, hcompressed⟩]
    exact if_pos hkey

theorem unlock_eq_some {vMasterKeyIn : CKeyingMaterial} {fOk : Bool}
    (h : store.unlock lib vMasterKeyIn = some (fOk, store')) :
    (fOk = true ∧ store.Passes lib vMasterKeyIn ∧ store' = { store with vMasterKey := vMasterKeyIn }) ∨
      (fOk = false ∧ store' = store) := by
  unfold unlock at h
  cases hfirst : store.firstEntry with
  | none =>
    rw [hfirst] at h
    obtain ⟨rfl, rfl⟩ := Prod.mk.inj (Option.some.inj h)
    exact .inl ⟨rfl, fun pk c hentry => absurd (hfirst.symm.trans hentry) (by simp), rfl⟩
  | some entry =>
    obtain ⟨pk, c⟩ := entry
    rw [hfirst] at h
    dsimp only at h
    split at h
    · obtain ⟨rfl, rfl⟩ := Prod.mk.inj (Option.some.inj h)
      exact .inr ⟨rfl, rfl⟩
    · next vchSecret hdec =>
      split_ifs at h
      · obtain ⟨rfl, rfl⟩ := Prod.mk.inj (Option.some.inj h)
        exact .inr ⟨rfl, rfl⟩
      · split at h
        · cases h
        · next key hset =>
          obtain ⟨rfl, hcompressed⟩ := CKey.set_eq_some.mp hset
          split_ifs at h with hkey
          · obtain ⟨rfl, rfl⟩ := Prod.mk.inj (Option.some.inj h)
            refine .inl ⟨rfl, fun pk' c' hentry => ?_, rfl⟩
            obtain ⟨rfl, rfl⟩ := Prod.mk.inj (Option.some.inj (hfirst.symm.trans hentry))
            exact ⟨key, hdec, hcompressed, hkey⟩
          · obtain ⟨rfl, rfl⟩ := Prod.mk.inj (Option.some.inj h)
            exact .inr ⟨rfl, rfl⟩

/-- An entry without a secret, if it is the first, makes every master key fail. -/
theorem not_passes_of_nil {pk : CPubKey} (h : store.firstEntry = some (pk, [])) (vMasterKeyIn : CKeyingMaterial) :
    ¬ store.Passes lib vMasterKeyIn := by
  intro hpasses
  obtain ⟨key, hdec, -⟩ := hpasses pk [] h
  rw [decryptSecret_nil] at hdec
  cases hdec

theorem lookup_of_firstEntry {pk c : List UInt8} (h : store.firstEntry = some (pk, c)) :
    ∃ id, store.mapCryptedKeys.lookup id = some (pk, c) := by
  obtain ⟨id, -, hlook⟩ := Option.bind_eq_some_iff.mp h
  exact ⟨id, hlook⟩

theorem getKey_of_complete {pk c : List UInt8} (hlook : store.mapCryptedKeys.lookup id = some (pk, c))
    (hc : Complete lib store.vMasterKey pk c) :
    ∃ key, store.getKey lib id = some (some key) ∧ key.getPubKey lib = pk := by
  obtain ⟨key, hdec, hset, hkey⟩ := hc.decrypt
  refine ⟨key, ?_, hkey⟩
  unfold getKey
  rw [hlook]
  dsimp only
  rw [hdec]
  dsimp only
  rw [if_neg (not_not.mpr key.vch.length_e), hset]

end CCryptoKeyStore

namespace CWallet

variable {w w' : CWallet} {pass : SecureString}

open CCryptoKeyStore

/-- A passphrase gives no other master key than `pass` with which the first entry can be decrypted. -/
def Genuine (lib : CryptoLib) (pass : SecureString) (w : CWallet) (strWalletPassphrase : SecureString) : Prop :=
  ∀ vMasterKey, w.masterKeyOf lib strWalletPassphrase = some vMasterKey → w.Passes lib vMasterKey →
    w.masterKeyOf lib pass = some vMasterKey

theorem genuine_self (lib : CryptoLib) (pass : SecureString) (w : CWallet) : w.Genuine lib pass pass :=
  fun _ hmaster _ => hmaster

theorem Encrypted.unlockStore (h : w.Encrypted lib K pass) {fAnonymizeOnly : Bool} :
    ({ w with vMasterKey := K, fWalletUnlockAnonymizeOnly := fAnonymizeOnly }.unlockStealthAddresses lib
      K).Unlocked lib K ∧
    ({ w with vMasterKey := K, fWalletUnlockAnonymizeOnly := fAnonymizeOnly }.unlockStealthAddresses lib
      K).Encrypted lib K pass ∧
    ∀ id, ({ w with vMasterKey := K, fWalletUnlockAnonymizeOnly := fAnonymizeOnly }.unlockStealthAddresses lib
      K).getPubKey id = w.getPubKey id := by
  obtain ⟨hs, hu, hmaster, hpub⟩ := @unlockStealthAddresses_spec lib K
    { w with vMasterKey := K, fWalletUnlockAnonymizeOnly := fAnonymizeOnly } h.sound rfl
  refine ⟨hu, ⟨hs, ?_, ?_, .inr hu⟩, hpub⟩
  · rw [hmaster]
    exact h.masterKeys
  · rw [CWallet.masterKeyOf, hmaster]
    exact h.masterKeyOf

theorem Encrypted.unlock (h : w.Encrypted lib K pass) {p : SecureString} (hgenuine : w.Genuine lib pass p)
    {fAnonymizeOnly fOk : Bool} (hunlock : w.unlock lib p fAnonymizeOnly = some (fOk, w')) :
    w'.Encrypted lib K pass ∧ (∀ id, w'.getPubKey id = w.getPubKey id) ∧
      (fOk = true → w'.Unlocked lib K ∧ (w.isLocked = true → w.Passes lib K)) := by
  obtain ⟨⟨nID, pMasterKey⟩, hmasters⟩ := h.masterKeys
  have hmaster : w.masterKeyOf lib p =
      (pMasterKey.crypter lib p).bind fun crypter => crypter.decrypt lib pMasterKey.vchCryptedKey := by
    rw [CWallet.masterKeyOf, hmasters]
    rfl
  unfold CWallet.unlock at hunlock
  split_ifs at hunlock with hl
  · obtain ⟨rfl, rfl⟩ := Prod.mk.inj (Option.some.inj hunlock)
    rw [Bool.not_eq_true'] at hl
    have hu := h.unlocked (by rw [hl]; exact Bool.false_ne_true)
    exact ⟨⟨h.sound, h.masterKeys, h.masterKeyOf, .inr ⟨hu.vMasterKey, hu.complete, hu.secret⟩⟩, fun _ => rfl,
      fun _ => ⟨⟨hu.vMasterKey, hu.complete, hu.secret⟩, fun hl' => absurd (hl'.symm.trans hl) (by simp)⟩⟩
  · rw [hmasters] at hunlock
    dsimp only at hunlock
    cases hcrypter : pMasterKey.crypter lib p with
    | none =>
      rw [hcrypter] at hunlock
      obtain ⟨rfl, rfl⟩ := Prod.mk.inj (Option.some.inj hunlock)
      exact ⟨h, fun _ => rfl, fun hfalse => (by cases hfalse)⟩
    | some crypter =>
      rw [hcrypter, Option.bind_some] at hmaster
      rw [hcrypter] at hunlock
      dsimp only at hunlock
      cases hdec : crypter.decrypt lib pMasterKey.vchCryptedKey with
      | none =>
        rw [hdec] at hunlock
        obtain ⟨rfl, rfl⟩ := Prod.mk.inj (Option.some.inj hunlock)
        exact ⟨h, fun _ => rfl, fun hfalse => (by cases hfalse)⟩
      | some vMasterKey =>
        rw [hdec] at hunlock hmaster
        dsimp only at hunlock
        split at hunlock
        · cases hunlock
        · next store hstore =>
          obtain ⟨hfalse, -⟩ | ⟨-, rfl⟩ := unlock_eq_some hstore
          · cases hfalse
          · rw [← hmasters] at hunlock
            obtain ⟨rfl, rfl⟩ := Prod.mk.inj (Option.some.inj hunlock)
            exact ⟨h, fun _ => rfl, fun hfalse => (by cases hfalse)⟩
        · next store hstore =>
          obtain ⟨-, hpasses, rfl⟩ | ⟨hfalse, -⟩ := unlock_eq_some hstore
          · obtain rfl := Option.some.inj ((hgenuine vMasterKey hmaster hpasses).symm.trans h.masterKeyOf)
            rw [← hmasters] at hunlock
            obtain ⟨rfl, rfl⟩ := Prod.mk.inj (Option.some.inj hunlock)
            obtain ⟨hu, henc, hpub⟩ := @Encrypted.unlockStore lib _ w pass h fAnonymizeOnly
            exact ⟨henc, hpub, fun _ => ⟨hu, fun _ => hpasses⟩⟩
          · cases hfalse

theorem Encrypted.unlock_of_passes (h : w.Encrypted lib K pass) (hpasses : w.Passes lib K) (fAnonymizeOnly : Bool) :
    ∃ w', w.unlock lib pass fAnonymizeOnly = some (true, w') := by
  obtain ⟨⟨nID, pMasterKey⟩, hmasters⟩ := h.masterKeys
  have hmaster := h.masterKeyOf
  rw [CWallet.masterKeyOf, hmasters, List.head?_cons, Option.bind_some] at hmaster
  obtain ⟨crypter, hcrypter, hdec⟩ := Option.bind_eq_some_iff.mp hmaster
  unfold CWallet.unlock
  split_ifs with hl
  · exact ⟨_, rfl⟩
  · rw [hmasters]
    dsimp only
    rw [hcrypter]
    dsimp only
    rw [hdec]
    dsimp only
    rw [CCryptoKeyStore.unlock_of_passes hpasses]
    exact ⟨_, rfl⟩

/-! ### `ChangeWalletPassphrase` -/

theorem lock_getPubKey (w : CWallet) (id : CKeyID) : w.lock.getPubKey id = w.getPubKey id := by
  rw [CCryptoKeyStore.getPubKey, lock_mapCryptedKeys]
  rfl

theorem Genuine.lock {p : SecureString} (h : w.Genuine lib pass p) : w.lock.Genuine lib pass p := by
  intro vMasterKey hmaster hpasses
  rw [CWallet.masterKeyOf, lock_mapMasterKeys] at hmaster ⊢
  refine h vMasterKey hmaster fun pk c hfirst => hpasses pk c ?_
  rw [firstEntry, lock_mapCryptedKeys]
  exact hfirst

theorem recrypt_spec {pMasterKey pMasterKey' : CMasterKey} {strNew : SecureString} {nTimed : Nat}
    (h : recrypt lib pMasterKey K strNew nTimed = (true, pMasterKey')) :
    ((pMasterKey'.crypter lib strNew).bind fun crypter => crypter.decrypt lib pMasterKey'.vchCryptedKey) = some K := by
  unfold recrypt at h
  dsimp only at h
  split at h
  · cases h
  · next crypter hcrypter =>
    obtain ⟨-, rfl⟩ := Prod.mk.inj h
    refine Option.bind_eq_some_iff.mpr ⟨crypter, hcrypter, ?_⟩
    exact lib.decrypt_encrypt _ _ _

/-- After a successful change the new passphrase is the one. -/
theorem Encrypted.changeWalletPassphrase (h : w.Encrypted lib K pass) {strOld strNew : SecureString} {nTimed : Nat}
    (hgenuine : w.Genuine lib pass strOld)
    (hchange : w.changeWalletPassphrase lib strOld strNew nTimed = some (true, w')) :
    w'.Encrypted lib K strNew ∧ ∀ id, w'.getPubKey id = w.getPubKey id := by
  obtain ⟨⟨nID, pMasterKey⟩, hmasters⟩ := h.lock.masterKeys
  have hmaster : w.lock.masterKeyOf lib strOld =
      (pMasterKey.crypter lib strOld).bind fun crypter => crypter.decrypt lib pMasterKey.vchCryptedKey := by
    rw [CWallet.masterKeyOf, hmasters]
    rfl
  rw [CWallet.changeWalletPassphrase, hmasters, changeLoop] at hchange
  split at hchange
  · cases hchange
  · next crypter hcrypter =>
    rw [hcrypter, Option.bind_some] at hmaster
    split at hchange
    · cases hchange
    · next vMasterKey hdec =>
      rw [hdec] at hmaster
      split at hchange
      · cases hchange
      · cases hchange
      · next store hstore =>
        obtain ⟨-, hpasses, rfl⟩ | ⟨hfalse, -⟩ := unlock_eq_some hstore
        · obtain rfl := Option.some.inj ((hgenuine.lock vMasterKey hmaster hpasses).symm.trans h.lock.masterKeyOf)
          obtain ⟨hu, henc, hpub⟩ := @Encrypted.unlockStore lib _ _ pass h.lock w.lock.fWalletUnlockAnonymizeOnly
          rcases hrec : recrypt lib pMasterKey vMasterKey strNew nTimed with ⟨fOk, pMasterKey'⟩
          rw [hrec] at hchange
          dsimp only at hchange
          split_ifs at hchange with hok hl
          · cases hchange
          all_goals
            rw [Bool.not_eq_true', Bool.not_eq_false] at hok
            subst hok
            obtain ⟨-, rfl⟩ := Prod.mk.inj (Option.some.inj hchange)
            refine ⟨?_, fun id => ?_⟩
          · exact Encrypted.lock ⟨henc.sound, ⟨_, rfl⟩, recrypt_spec hrec,
              .inr ⟨hu.vMasterKey, hu.complete, hu.secret⟩⟩
          · rw [lock_getPubKey]
            exact (hpub id).trans (lock_getPubKey w id)
          · exact ⟨henc.sound, ⟨_, rfl⟩, recrypt_spec hrec, .inr ⟨hu.vMasterKey, hu.complete, hu.secret⟩⟩
          · exact (hpub id).trans (lock_getPubKey w id)
        · cases hfalse

/-! ### `FindStealthTransactions` -/

/-- The secret of a payment to the address, with this ephemeral key, can be derived. -/
def Derives (lib : CryptoLib) (vchEphemPK : List UInt8) (sxAddr : CStealthAddress) : Prop :=
  ∀ (scan f sShared : EcSecret) (pk : List UInt8), sxAddr.scan_secret = scan.e →
    secretToPublicKey lib.ecgrp f = some sxAddr.spend_pubkey →
    stealthSecret lib.ecgrp lib.sha256 scan vchEphemPK sxAddr.spend_pubkey = some (sShared, pk) →
    ∃ s, stealthSecretSpend lib.ecgrp lib.sha256 scan (pubKeyOfVch vchEphemPK) f = some s ∧
      secretToPublicKey lib.ecgrp s = some pk

/-- The ephemeral keys of a transaction. -/
def EphemPK (tx : CTransaction) (vchEphemPK : List UInt8) : Prop :=
  ∃ txout ∈ tx.vout, ∃ itTxA, getEphemPK txout.scriptPubKey = some (vchEphemPK, itTxA)

/-- The wallet `w'`, after `w`: no key was lost. -/
structure Follows (lib : CryptoLib) (K : CKeyingMaterial) (pass : SecureString) (w w' : CWallet) : Prop where
  encrypted : w'.Encrypted lib K pass
  haveKey : ∀ {id}, w.haveKey id = true → w'.haveKey id = true
  stealthAddresses : w'.stealthAddresses = w.stealthAddresses

theorem Follows.trans {w₁ w₂ w₃ : CWallet} (h : Follows lib K pass w₁ w₂)
    (h' : Follows lib K pass w₂ w₃) :
    Follows lib K pass w₁ w₃ :=
  ⟨h'.encrypted, fun hid => h'.haveKey (h.haveKey hid), h'.stealthAddresses.trans h.stealthAddresses⟩

theorem Encrypted.addKey_follows (h : w.Encrypted lib K pass) (key : CKey) :
    Follows lib K pass w (w.addKey lib key).2 := by
  refine ⟨h.addKey key, fun hid => haveKey_addKey h key hid, ?_⟩
  by_cases hl : w.isLocked = true
  · rw [addKey_of_locked hl]
  · obtain ⟨c, -, hp⟩ := @addKey_of_unlocked lib w hl ((h.unlocked hl).vMasterKey ▸ h.sound.length_eq) key
    exact hp.stealthAddresses

/-- A payment that is found adds an entry with its secret, or one that can be given its secret. -/
theorem Encrypted.addStealthKey (h : w.Encrypted lib K pass) {vchEphemPK : List UInt8} {it : CStealthAddress}
    (hmem : it ∈ w.stealthAddresses) (hderives : Derives lib vchEphemPK it) (hlen : it.Owned) {sShared : EcSecret}
    {pk : List UInt8}
    (hshared : stealthSecret lib.ecgrp lib.sha256 ⟨it.scan_secret, hlen⟩ vchEphemPK it.spend_pubkey =
      some (sShared, pk))
    (hvalid : CPubKey.isValid (pubKeyOfVch pk) = true) :
    Follows lib K pass w (w.addStealthKey lib vchEphemPK it sShared (pubKeyOfVch pk)).2 := by
  rw [pubKeyOfVch_eq_self hvalid]
  unfold CWallet.addStealthKey
  split_ifs with hl hsecret
  · have hp := @puts_addCryptedKey lib w pk []
    dsimp only
    refine ⟨⟨?_, ?_, ?_, ?_⟩, fun hid => hp.haveKey hid, hp.stealthAddresses⟩
    · unfold Sound
      dsimp only
      rw [hp.mapCryptedKeys, hp.stealthAddresses, hp.sxAddr, hp.mapStealthKeyMeta]
      refine h.sound.insert
        (.inr ⟨rfl, _, AList.lookup_insert _, it, hmem, ?_, ⟨it.scan_secret, hlen⟩, rfl, ?_⟩)
        fun id hid => AList.lookup_insert_ne hid
      · exact (h.sound.scan it hmem hlen).symm
      · exact fun f hf => hderives _ f sShared pk rfl hf hshared
    · exact hp.mapMasterKeys.symm ▸ h.masterKeys
    · rw [CWallet.masterKeyOf]
      dsimp only
      rw [hp.mapMasterKeys]
      exact h.masterKeyOf
    · exact .inl (hp.vMasterKey.trans (isLocked_iff.mp hl))
  · have hsame : Follows lib K pass w w := ⟨h, fun hid => hid, rfl⟩
    split
    · exact hsame
    · split_ifs
      · exact hsame
      · split
        · exact hsame
        · split_ifs
          · exact hsame
          · exact h.addKey_follows _
  · exact ⟨h, fun hid => hid, rfl⟩

section Loops

variable {I : CWallet → Prop} {vchEphemPK : List UInt8}

theorem addNarr_wallet (vchEphemPK : List UInt8) (nOutputId : Nat) (sShared : EcSecret) (st : FindState) :
    (addNarr lib vchEphemPK nOutputId sShared st).2.wallet = st.wallet := by
  unfold addNarr
  dsimp only
  split
  · rfl
  · split <;> rfl

/-- What the payments to the addresses keep. -/
def KeptBy (lib : CryptoLib) (I : CWallet → Prop) (vchEphemPK : List UInt8) (addrs : List CStealthAddress) : Prop :=
  ∀ it ∈ addrs, ∀ w (hlen : it.Owned) sShared pk, I w →
    stealthSecret lib.ecgrp lib.sha256 ⟨it.scan_secret, hlen⟩ vchEphemPK it.spend_pubkey = some (sShared, pk) →
    CPubKey.isValid (pubKeyOfVch pk) = true → I (w.addStealthKey lib vchEphemPK it sShared (pubKeyOfVch pk)).2

theorem findAddress_inv {nOutputId : Nat} {ckidMatch : CKeyID} {addrs : List CStealthAddress}
    (hadd : KeptBy lib I vchEphemPK addrs) : ∀ {st : FindState}, I st.wallet →
      I (findAddress lib vchEphemPK nOutputId ckidMatch addrs st).2.wallet := by
  induction addrs with
  | nil => exact fun h => h
  | cons it rest ih =>
    intro st hst
    have hrest : ∀ {st : FindState}, I st.wallet →
        I (findAddress lib vchEphemPK nOutputId ckidMatch rest st).2.wallet :=
      ih fun it' hmem => hadd it' (List.mem_cons_of_mem _ hmem)
    rw [findAddress]
    split_ifs with hlen
    · split
      · exact hrest hst
      · next sShared pk hshared =>
        dsimp only
        by_cases hmatch : (!CPubKey.isValid (pubKeyOfVch pk) || ckidMatch ≠ getID lib (pubKeyOfVch pk)) = true
        · rw [if_pos hmatch]
          exact hrest hst
        · rw [if_neg hmatch]
          rw [Bool.or_eq_true, not_or, Bool.not_eq_true', Bool.not_eq_false] at hmatch
          have hw := hadd it List.mem_cons_self st.wallet hlen sShared pk hst hshared hmatch.1
          split_ifs
          · exact hrest hw
          · exact (addNarr_wallet _ _ _ _).symm ▸ hw
          · exact hrest ((addNarr_wallet _ _ _ _).symm ▸ hw)
    · exact hrest hst

theorem findOutput_inv {nOutputIdOuter : Nat} (hadd : ∀ w, I w → KeptBy lib I vchEphemPK w.stealthAddresses)
    (outs : List CTxOut) : ∀ {nOutputId : Nat} {st : FindState}, I st.wallet →
      I (findOutput lib vchEphemPK nOutputIdOuter nOutputId outs st).wallet := by
  induction outs with
  | nil => exact fun h => h
  | cons txoutB rest ih =>
    intro nOutputId st hst
    rw [findOutput]
    split_ifs
    · exact ih hst
    · split
      · exact ih hst
      · next ckidMatch _ =>
        have hw := @findAddress_inv lib I vchEphemPK nOutputId ckidMatch _ (hadd _ hst) st hst
        dsimp only
        split_ifs
        · exact ih hst
        · exact hw
        · exact ih hw

theorem findStealthTransactions_inv {tx : CTransaction}
    (hadd : ∀ vchEphemPK, EphemPK tx vchEphemPK → ∀ w, I w → KeptBy lib I vchEphemPK w.stealthAddresses)
    (h : I w) :
    I (w.findStealthTransactions lib tx).1 := by
  refine Loop.foldl_inv (fun _ (st : CWallet × StdMap Int (List UInt8)) => I st.1)
    h fun done out rest st hout hst => ?_
  obtain ⟨txout, nOutputIdOuter⟩ := out
  unfold findTxOut
  dsimp only
  split
  · exact hst
  · next vchEphemPK itTxA hephem =>
    have hmem : txout ∈ tx.vout := List.fst_mem_of_mem_zipIdx (hout ▸ List.mem_append_right done List.mem_cons_self)
    split_ifs
    · split
      · exact hst
      · exact hst
    · exact hst
    · exact findOutput_inv (hadd vchEphemPK ⟨txout, hmem, itTxA, hephem⟩) tx.vout hst

end Loops

/-- The stealth payments that a wallet finds are added, whether it is locked or not. -/
theorem Encrypted.findStealthTransactions (h : w.Encrypted lib K pass) {tx : CTransaction}
    (hderives : ∀ vchEphemPK, EphemPK tx vchEphemPK → ∀ sxAddr ∈ w.stealthAddresses,
        Derives lib vchEphemPK sxAddr) :
    Follows lib K pass w (w.findStealthTransactions lib tx).1 := by
  refine findStealthTransactions_inv (I := Follows lib K pass w) ?_ ⟨h, fun hid => hid, rfl⟩
  intro vchEphemPK hephem w' hw' it hmem w'' hlen sShared pk hw'' hshared hvalid
  rw [hw'.stealthAddresses] at hmem
  exact hw''.trans (hw''.encrypted.addStealthKey (hw''.stealthAddresses.symm ▸ hmem)
    (hderives vchEphemPK hephem it hmem) hlen hshared hvalid)

/-! ### Recovery -/

/-- `Unlock` with the passphrase succeeds, and then `GetKey` gives for every key id a key with the stored public
key. -/
def Recovers (lib : CryptoLib) (w : CWallet) (strWalletPassphrase : SecureString) : Prop :=
  ∀ anonymizeOnly, ∃ w', w.unlock lib strWalletPassphrase anonymizeOnly = some (true, w') ∧
    ∀ {id pk}, w.getPubKey id = some pk → ∃ key, w'.getKey lib id = some (some key) ∧ key.getPubKey lib = pk

/-- The entry that a locked wallet tries the master key on has a secret. -/
def FirstHasSecret (w : CWallet) : Prop := w.isLocked = true → ∀ pk c, w.firstEntry = some (pk, c) → c ≠ []

theorem recovers_iff (h : w.Encrypted lib K pass) : w.Recovers lib pass ↔ w.FirstHasSecret := by
  constructor
  · rintro hrecovers hl pk c hfirst rfl
    obtain ⟨w', hunlock, -⟩ := hrecovers false
    exact not_passes_of_nil hfirst K (((h.unlock (genuine_self lib pass w) hunlock).2.2 rfl).2 hl)
  · intro hfirst anonymizeOnly
    have hpasses : w.isLocked = true → w.Passes lib K := by
      intro hl pk c hentry
      obtain ⟨id, hlook⟩ := lookup_of_firstEntry hentry
      obtain ⟨key, hdec, hset, hkey⟩ :=
        ((h.sound.entry hlook).resolve_right fun hpending => hfirst hl pk c hentry hpending.1).decrypt
      exact ⟨key, hdec, (CKey.set_eq_some.mp hset).2, hkey⟩
    obtain ⟨w', hunlock⟩ : ∃ w', w.unlock lib pass anonymizeOnly = some (true, w') := by
      by_cases hl : w.isLocked = true
      · exact h.unlock_of_passes (hpasses hl) anonymizeOnly
      · exact ⟨_, if_pos (by simpa using hl)⟩
    obtain ⟨-, hpub, hok⟩ := h.unlock (genuine_self lib pass w) hunlock
    obtain ⟨hu, -⟩ := hok rfl
    refine ⟨w', hunlock, fun {id pk} hid => ?_⟩
    rw [← hpub] at hid
    obtain ⟨⟨pk', c⟩, hlook, rfl⟩ := Option.map_eq_some_iff.mp hid
    exact getKey_of_complete hlook (hu.vMasterKey.symm ▸ hu.complete hlook)

/-! ### Runs -/

inductive WalletAct
  | lock
  | unlock (strWalletPassphrase : SecureString) (anonymizeOnly : Bool)
  | changeWalletPassphrase (strOldWalletPassphrase strNewWalletPassphrase : SecureString) (nTimed : Nat)
  | addKey (key : CKey)
  | findStealthTransactions (tx : CTransaction)

/-- A step of a wallet and its passphrase; a change of the passphrase is a step if it succeeds. -/
def walletStep (lib : CryptoLib) (st : CWallet × SecureString) : WalletAct → Option (CWallet × SecureString)
  | .lock => some (st.1.lock, st.2)
  | .unlock strWalletPassphrase anonymizeOnly =>
    (st.1.unlock lib strWalletPassphrase anonymizeOnly).map fun res => (res.2, st.2)
  | .changeWalletPassphrase strOld strNew nTimed =>
    (st.1.changeWalletPassphrase lib strOld strNew nTimed).bind fun res => if res.1 then some (res.2, strNew) else none
  | .addKey key => some ((st.1.addKey lib key).2, st.2)
  | .findStealthTransactions tx => some ((st.1.findStealthTransactions lib tx).1, st.2)

/-- What is assumed of a step: a wrong passphrase gives no master key that decrypts the first entry, and the secrets of
stealth payments can be derived. -/
def Assumed (lib : CryptoLib) (st : CWallet × SecureString) : WalletAct → Prop
  | .unlock strWalletPassphrase _ => st.1.Genuine lib st.2 strWalletPassphrase
  | .changeWalletPassphrase strOld _ _ => st.1.Genuine lib st.2 strOld
  | .findStealthTransactions tx =>
    ∀ vchEphemPK, EphemPK tx vchEphemPK → ∀ sxAddr ∈ st.1.stealthAddresses, Derives lib vchEphemPK sxAddr
  | _ => True

theorem haveKey_iff_getPubKey {store : CCryptoKeyStore} :
    store.haveKey id = (store.getPubKey id).isSome := by
  rw [CCryptoKeyStore.haveKey, CCryptoKeyStore.getPubKey, Option.isSome_map]

theorem haveKey_of_getPubKey_eq (h : ∀ id, w'.getPubKey id = w.getPubKey id) (hid : w.haveKey id = true) :
    w'.haveKey id = true := by
  rw [haveKey_iff_getPubKey, h, ← haveKey_iff_getPubKey]
  exact hid

theorem Encrypted.step (h : w.Encrypted lib K pass) {act : WalletAct} {pass' : SecureString}
    (hassumed : Assumed lib (w, pass) act) (hstep : walletStep lib (w, pass) act = some (w', pass')) :
    w'.Encrypted lib K pass' ∧ ∀ {id}, w.haveKey id = true → w'.haveKey id = true := by
  cases act with
  | lock =>
    obtain ⟨rfl, rfl⟩ := Prod.mk.inj (Option.some.inj hstep)
    exact ⟨h.lock, fun hid => haveKey_of_getPubKey_eq (lock_getPubKey w) hid⟩
  | unlock strWalletPassphrase anonymizeOnly =>
    obtain ⟨⟨fOk, w''⟩, hunlock, heq⟩ := Option.map_eq_some_iff.mp hstep
    obtain ⟨rfl, rfl⟩ := Prod.mk.inj heq
    obtain ⟨henc, hpub, -⟩ := h.unlock hassumed hunlock
    exact ⟨henc, fun hid => haveKey_of_getPubKey_eq hpub hid⟩
  | changeWalletPassphrase strOld strNew nTimed =>
    obtain ⟨⟨fOk, w''⟩, hchange, heq⟩ := Option.bind_eq_some_iff.mp hstep
    dsimp only at heq
    split_ifs at heq with hok
    obtain ⟨rfl, rfl⟩ := Prod.mk.inj (Option.some.inj heq)
    subst hok
    obtain ⟨henc, hpub⟩ := h.changeWalletPassphrase hassumed hchange
    exact ⟨henc, fun hid => haveKey_of_getPubKey_eq hpub hid⟩
  | addKey key =>
    obtain ⟨rfl, rfl⟩ := Prod.mk.inj (Option.some.inj hstep)
    exact ⟨h.addKey key, fun hid => haveKey_addKey h key hid⟩
  | findStealthTransactions tx =>
    obtain ⟨rfl, rfl⟩ := Prod.mk.inj (Option.some.inj hstep)
    have hfollows := h.findStealthTransactions hassumed
    exact ⟨hfollows.encrypted, hfollows.haveKey⟩

/-- **No key is lost**, in any run. -/
theorem Encrypted.run : ∀ {acts : List WalletAct} {w : CWallet} {pass : SecureString}, w.Encrypted lib K pass →
    Run.EveryStep (walletStep lib) (Assumed lib) acts (w, pass) → ∀ {w' pass'},
    acts.foldlM (walletStep lib) (w, pass) = some (w', pass') →
      w'.Encrypted lib K pass' ∧ ∀ {id}, w.haveKey id = true → w'.haveKey id = true := by
  intro acts
  induction acts with
  | nil =>
    intro w pass h _ w' pass' hrun
    obtain ⟨rfl, rfl⟩ := Prod.mk.inj (Option.some.inj hrun)
    exact ⟨h, fun hid => hid⟩
  | cons act acts ih =>
    rintro w pass h ⟨hassumed, hrest⟩ w' pass' hrun
    rw [List.foldlM_cons, Option.bind_eq_bind, Option.bind_eq_some_iff] at hrun
    obtain ⟨⟨w₁, pass₁⟩, hstep, hrun⟩ := hrun
    obtain ⟨h₁, hkeep⟩ := h.step hassumed hstep
    obtain ⟨h', hkeep'⟩ := ih h₁ (hrest _ hstep) hrun
    exact ⟨h', fun hid => hkeep' (hkeep hid)⟩

end CWallet

/-- **The right passphrase unlocks** a wallet, in any state of a run, and gives all keys, exactly if the first entry has
its secret. -/
theorem unlock_recovers_iff (lib : CryptoLib) {K : CKeyingMaterial} {pass pass' : SecureString} {w w' : CWallet}
    (h : w.Encrypted lib K pass) {acts : List CWallet.WalletAct}
    (hassumed : Run.EveryStep (CWallet.walletStep lib) (CWallet.Assumed lib) acts (w, pass))
    (hrun : acts.foldlM (CWallet.walletStep lib) (w, pass) = some (w', pass')) :
    w'.Encrypted lib K pass' ∧ (∀ id, w.haveKey id = true → w'.haveKey id = true) ∧
      (w'.Recovers lib pass' ↔ w'.FirstHasSecret) := by
  obtain ⟨h', hkeep⟩ := h.run hassumed hrun
  exact ⟨h', fun _ hid => hkeep hid, CWallet.recovers_iff h'⟩

/-! ### A wallet that cannot be unlocked -/

/-- In the group of the numbers, the public key of a secret is the secret. -/
theorem zmodGroup_point2oct_nsmul {secret : EcSecret} (hpos : 0 < secret.bn) (hlt : secret.bn < curveOrder) :
    zmodGroup.point2oct (secret.bn • zmodGroup.generator) = 2 :: secret.e := by
  have hval : ((secret.bn : Nat) : ZMod curveOrder).val = secret.bn := ZMod.val_natCast_of_lt hlt
  have hne : ((secret.bn : Nat) : ZMod curveOrder) ≠ 0 := by
    intro hzero
    rw [hzero, ZMod.val_zero] at hval
    exact hpos.ne hval
  have hbytes : Codec.toLE 32 secret.bn = secret.e.reverse := by
    have hlen : secret.e.reverse.length = 32 := List.length_reverse.trans secret.length_e
    rw [← hlen]
    exact Codec.toLE_fromLE _
  change (if secret.bn • (1 : ZMod curveOrder) = 0 then [0]
    else 2 :: (Codec.toLE 32 (secret.bn • (1 : ZMod curveOrder)).val).reverse) = _
  rw [nsmul_one, if_neg hne, hval, hbytes, List.reverse_reverse]

def sampleLib : CryptoLib where
  ecgrp := zmodGroup
  sha256 _ := secretOne
  hash _ := List.replicate 32 0
  hash160 vch := (vch.getLastD 0).toNat
  bytesToKey strKeyData _ _ := (strKeyData, [])
  encrypt chKey _ vchPlaintext := 1 :: chKey ++ vchPlaintext
  decrypt chKey _ vchCiphertext :=
    if (1 :: chKey).isPrefixOf vchCiphertext then some (vchCiphertext.drop (chKey.length + 1)) else none
  pubKey secret fCompressed := if fCompressed then 2 :: secret.e else 4 :: (secret.e ++ secret.e)
  length_hash _ := List.length_replicate
  decrypt_encrypt chKey chIV vchPlaintext := by simp
  decrypt_nil _ _ := rfl
  length_pubKey secret fCompressed := by cases fCompressed <;> simp [secret.length_e]
  pubKey_ne_nil secret fCompressed := by cases fCompressed <;> simp
  pubKey_eq := by
    intro secret pk hpos hlt hpk
    rw [secretToPublicKey, pointBytes_eq_some, zmodGroup_point2oct_nsmul hpos hlt] at hpk
    exact hpk.2

/-- A secret whose last byte is `b`, which is then the id of its key. -/
def sampleSecret (b : UInt8) : EcSecret := ⟨List.replicate 31 1 ++ [b], by simp⟩

def samplePoint : List UInt8 := 2 :: secretOne.e

def sampleMasterKey : CKeyingMaterial := List.replicate 32 7

def sampleWallet (b : UInt8) : CWallet where
  mapCryptedKeys := AList.singleton b.toNat (2 :: (sampleSecret b).e, 1 :: sampleMasterKey ++ (sampleSecret b).e)
  mapMasterKeys := [(1,
    { vchCryptedKey := 1 :: 5 :: sampleMasterKey, vchSalt := List.replicate 8 0, nDerivationMethod := 0,
      nDeriveIterations := 25000 })]
  stealthAddresses := [
    { scan_pubkey := samplePoint, spend_pubkey := 2 :: (sampleSecret 1).e, scan_secret := secretOne.e,
      spend_secret := 1 :: sampleMasterKey ++ (sampleSecret 1).e }]
  sxAddr := AList.singleton samplePoint
    { scan_pubkey := samplePoint, spend_pubkey := 2 :: (sampleSecret 1).e, scan_secret := secretOne.e,
      spend_secret := 1 :: sampleMasterKey ++ (sampleSecret 1).e }

/-- A payment to the stealth address, whose key has the id 2. -/
def sampleTx : CTransaction where
  nTime := 0
  vin := []
  vout := [{ nValue := 0, scriptPubKey := [0x6a, 33] ++ samplePoint },
    { nValue := 1, scriptPubKey := [0x76, 0xa9, 20, 2] ++ List.replicate 19 0 ++ [0x88, 0xac] }]

theorem lookup_singleton {V : Type} {k : CKeyID} {v v' : V}
    (h : (AList.singleton k v : StdMap CKeyID V).lookup id = some v') : id = k ∧ v' = v := by
  rw [← AList.insert_empty] at h
  by_cases hid : id = k
  · subst hid
    rw [AList.lookup_insert] at h
    exact ⟨rfl, (Option.some.inj h).symm⟩
  · rw [AList.lookup_insert_ne hid, AList.lookup_empty] at h
    cases h

theorem secretToPublicKey_sampleSecret {b : UInt8} (h : seckeyVerify (sampleSecret b) = true) :
    secretToPublicKey zmodGroup (sampleSecret b) = some (2 :: (sampleSecret b).e) := by
  obtain ⟨hpos, hlt⟩ := of_decide_eq_true h
  rw [← zmodGroup_point2oct_nsmul hpos hlt]
  exact (secretToPublicKey_of_inRange ⟨hpos, hlt⟩).2

theorem sampleWallet_encrypted {b : UInt8} (h : seckeyVerify (sampleSecret b) = true) :
    (sampleWallet b).Encrypted sampleLib sampleMasterKey [5] where
  sound := {
    length_eq := rfl
    getID_eq := by
      intro id pk c hlook
      obtain ⟨rfl, hentry⟩ := lookup_singleton hlook
      obtain ⟨rfl, -⟩ := Prod.mk.inj hentry
      simp [getID, sampleLib, sampleSecret]
    entry := by
      intro id pk c hlook
      obtain ⟨rfl, hentry⟩ := lookup_singleton hlook
      obtain ⟨rfl, rfl⟩ := Prod.mk.inj hentry
      exact .inl ⟨⟨sampleSecret b, true, h⟩, rfl, rfl⟩
    nodup := List.nodup_singleton _
    scan := by
      simp only [sampleWallet, List.forall_mem_singleton]
      exact fun _ => by decide
    secret := by
      simp only [sampleWallet, List.forall_mem_singleton]
      exact fun _ => .inl ⟨sampleSecret 1, secretToPublicKey_sampleSecret (by decide), rfl⟩
    record := by
      simp only [sampleWallet, List.forall_mem_singleton]
      exact fun _ => ⟨_, rfl, sampleSecret 1, secretToPublicKey_sampleSecret (by decide), rfl⟩ }
  masterKeys := ⟨_, rfl⟩
  masterKeyOf := rfl
  locked := .inl rfl

/-- The secret of a payment to the sample address can be derived. -/
theorem sampleTx_derives (b : UInt8) : CWallet.Assumed sampleLib (sampleWallet b, [5])
    (.findStealthTransactions sampleTx) := by
  have hrange : secretOne.InRange := secretOne_inRange
  obtain ⟨hne, -⟩ := @secretToPublicKey_of_inRange zmodGroup _ hrange
  have hkey : pubKeyOfVch samplePoint = zmodGroup.point2oct (secretOne.bn • zmodGroup.generator) :=
    (show pubKeyOfVch samplePoint = samplePoint by decide).trans (zmodGroup_point2oct_nsmul hrange.1 hrange.2).symm
  rintro vchEphemPK ⟨txout, hmem, itTxA, hephem⟩
  obtain rfl : vchEphemPK = samplePoint := by
    simp only [sampleTx, List.mem_cons, List.not_mem_nil, or_false] at hmem
    rcases hmem with rfl | rfl
    · exact (Prod.mk.inj (Option.some.inj hephem)).1.symm
    · cases hephem
  simp only [sampleWallet, List.forall_mem_singleton]
  intro scan f sShared pk _ hf hshared
  dsimp only at hf hshared
  have hmod : f.bn % curveOrder = (sampleSecret 1).bn % curveOrder :=
    mod_eq_of_secretToPublicKey hf (secretToPublicKey_sampleSecret (by decide))
  have hsees : stealthSecret zmodGroup (fun _ => secretOne) scan
      (zmodGroup.point2oct (secretOne.bn • zmodGroup.generator)) (2 :: (sampleSecret 1).e) = some (sShared, pk) := by
    rw [zmodGroup_point2oct_nsmul hrange.1 hrange.2]
    exact hshared
  have hone : secretOne = sShared := by
    obtain ⟨hR, hRkey⟩ := pointBytes_eq_some.mp hf
    have hsees' := hsees
    rw [← hRkey] at hsees'
    exact ((stealthSecret_eq_some hne hR).mp hsees').2.1
  obtain ⟨s, hs, hspub⟩ := stealthSecretSpend_of_long hne hf hsees (by
    rw [← hone, Nat.add_mod, hmod]
    decide)
  rw [hkey]
  exact ⟨s, hs, hspub⟩

/-- The key of the payment comes after the key of the wallet. -/
theorem unlock_recovers_after :
    ((sampleWallet 0).findStealthTransactions sampleLib sampleTx).1.Recovers sampleLib [5] := by
  have hvalid : seckeyVerify (sampleSecret 0) = true := by decide
  have hassumed : Run.EveryStep (CWallet.walletStep sampleLib) (CWallet.Assumed sampleLib)
      [.findStealthTransactions sampleTx] (sampleWallet 0, [5]) := ⟨sampleTx_derives 0, fun _ _ => trivial⟩
  obtain ⟨-, -, hrecovers⟩ := unlock_recovers_iff sampleLib (sampleWallet_encrypted hvalid) hassumed rfl
  exact hrecovers.mpr fun _ pk c hfirst => by
    have hentry : ((sampleWallet 0).findStealthTransactions sampleLib sampleTx).1.firstEntry =
        some (2 :: (sampleSecret 0).e, 1 :: sampleMasterKey ++ (sampleSecret 0).e) := by decide
    obtain ⟨-, rfl⟩ := Prod.mk.inj (Option.some.inj (hentry.symm.trans hfirst))
    exact List.cons_ne_nil _ _

/-- It comes before: the passphrase unlocks the wallet without the payment, and no longer with it. -/
theorem unlock_rejects_passphrase : (sampleWallet 9).Encrypted sampleLib sampleMasterKey [5] ∧
    CWallet.Assumed sampleLib (sampleWallet 9, [5]) (.findStealthTransactions sampleTx) ∧
    (sampleWallet 9).Recovers sampleLib [5] ∧
    (∀ anonymizeOnly, (((sampleWallet 9).findStealthTransactions sampleLib sampleTx).1.unlock sampleLib [5]
      anonymizeOnly).map Prod.fst = some false) ∧
    ¬ ((sampleWallet 9).findStealthTransactions sampleLib sampleTx).1.Recovers sampleLib [5] := by
  have henc : (sampleWallet 9).Encrypted sampleLib sampleMasterKey [5] := sampleWallet_encrypted (by decide)
  have hfalse : ∀ anonymizeOnly, (((sampleWallet 9).findStealthTransactions sampleLib sampleTx).1.unlock sampleLib [5]
      anonymizeOnly).map Prod.fst = some false := by decide
  refine ⟨henc, sampleTx_derives 9, (CWallet.recovers_iff henc).mpr fun _ pk c hfirst => ?_, hfalse,
    fun hrecovers => ?_⟩
  · have hentry : (sampleWallet 9).firstEntry =
        some (2 :: (sampleSecret 9).e, 1 :: sampleMasterKey ++ (sampleSecret 9).e) := by decide
    obtain ⟨-, rfl⟩ := Prod.mk.inj (Option.some.inj (hentry.symm.trans hfirst))
    exact List.cons_ne_nil _ _
  · obtain ⟨w', hunlock, -⟩ := hrecovers false
    have hresult := hfalse false
    rw [hunlock] at hresult
    cases hresult

end Sphinx.Crypter
