import Mathlib.Data.List.TakeWhile
import Sphinx.WalletTxRecord

/-!
# The record of a wallet transaction is read back

* `atoi64_i64tostr`: a number is read back from its text;
* `reads_readMap`: a map is read back, as far as its lookups tell;
* `eraseReserved_writtenValue`: the entries that are smuggled in are taken out again;
* `readWalletTx_write`: the round trip, if no size is above `MAX_SIZE`.
-/

namespace Sphinx

open Codec

variable {c : Char} {ds : List Char}

/-! ### Numbers as texts -/

/-- A character as a byte. -/
def charByte (c : Char) : UInt8 := UInt8.ofNat c.toNat

theorem toNat_charByte (h : c.isDigit = true) :
    (charByte c).toNat = c.toNat ∧ 48 ≤ c.toNat ∧ c.toNat ≤ 57 := by
  obtain ⟨hlow, hhigh⟩ := Char.isDigit_iff_toNat.mp h
  have h0 : ('0' : Char).toNat = 48 := rfl
  have h9 : ('9' : Char).toNat = 57 := rfl
  refine ⟨?_, by omega, by omega⟩
  rw [charByte, UInt8.toNat_ofNat']
  omega

theorem isDigit_charByte (h : c.isDigit = true) : isDigit (charByte c) = true := by
  obtain ⟨heq, hlow, hhigh⟩ := toNat_charByte h
  unfold isDigit
  rw [Bool.and_eq_true, decide_eq_true_eq, decide_eq_true_eq, UInt8.le_iff_toNat_le, UInt8.le_iff_toNat_le, heq]
  exact ⟨hlow, hhigh⟩

theorem charByte_not (h : c.isDigit = true) :
    isSpace (charByte c) = false ∧ charByte c ≠ 45 ∧ charByte c ≠ 43 := by
  obtain ⟨heq, hlow, hhigh⟩ := toNat_charByte h
  have hne : ∀ b : UInt8, b.toNat < 48 → charByte c ≠ b := by
    rintro b hb rfl
    omega
  refine ⟨?_, hne 45 (by decide), hne 43 (by decide)⟩
  unfold isSpace
  rw [Bool.or_eq_false_iff, Bool.and_eq_false_iff]
  refine ⟨decide_eq_false (hne 32 (by decide)), .inr (decide_eq_false ?_)⟩
  rw [UInt8.le_iff_toNat_le, heq]
  have h13 : (13 : UInt8).toNat = 13 := rfl
  omega

theorem foldl_charByte (h : ∀ c ∈ ds, c.isDigit = true) (n : Nat) :
    (ds.map charByte).foldl (fun n c => 10 * n + (c.toNat - 48)) n = Nat.ofDigitChars 10 ds n := by
  induction ds generalizing n with
  | nil => rw [List.map_nil, List.foldl_nil, Nat.ofDigitChars_nil]
  | cons c ds ih =>
    have hc := (toNat_charByte (h c List.mem_cons_self)).1
    rw [List.map_cons, List.foldl_cons, Nat.ofDigitChars_cons, hc, ih fun d hd => h d (List.mem_cons_of_mem c hd)]
    rfl

theorem digits_read (h : ∀ c ∈ ds, c.isDigit = true) :
    ((ds.map charByte).takeWhile isDigit).foldl (fun n c => 10 * n + (c.toNat - 48)) 0 = Nat.ofDigitChars 10 ds 0 := by
  have hall : (ds.map charByte).takeWhile isDigit = ds.map charByte := by
    refine List.takeWhile_eq_self_iff.mpr fun b hb => ?_
    obtain ⟨c, hc, rfl⟩ := List.mem_map.mp hb
    exact isDigit_charByte (h c hc)
  rw [hall, foldl_charByte h]

theorem atoi64_digits (h : ∀ d ∈ c :: ds, d.isDigit = true) :
    atoi64 ((c :: ds).map charByte) = max (-2 ^ 63) (min (2 ^ 63 - 1) (Nat.ofDigitChars 10 (c :: ds) 0 : Int)) := by
  obtain ⟨hspace, hminus, hplus⟩ := charByte_not (h c List.mem_cons_self)
  have hdrop : ((c :: ds).map charByte).dropWhile isSpace = (c :: ds).map charByte := by
    rw [List.map_cons, List.dropWhile_cons_of_neg (by rw [hspace]; exact Bool.false_ne_true)]
  have hhead : ((c :: ds).map charByte).head? = some (charByte c) := rfl
  unfold atoi64
  simp only [hdrop, hhead, Option.some.injEq, hminus, hplus, or_self, if_false, digits_read h]

theorem atoi64_minus (h : ∀ d ∈ ds, d.isDigit = true) :
    atoi64 (charByte '-' :: ds.map charByte) =
      max (-2 ^ 63) (min (2 ^ 63 - 1) (-(Nat.ofDigitChars 10 ds 0 : Int))) := by
  have hdrop : (charByte '-' :: ds.map charByte).dropWhile isSpace = charByte '-' :: ds.map charByte := rfl
  have hhead : (charByte '-' :: ds.map charByte).head? = some 45 := rfl
  have htail : (charByte '-' :: ds.map charByte).tail = ds.map charByte := rfl
  unfold atoi64
  simp only [hdrop, hhead, htail, true_or, if_true, digits_read h]

theorem atoi64_i64tostr {n : Int} (h : FitsInt 8 n) : atoi64 (i64tostr n) = n := by
  unfold FitsInt at h
  have hrange : -2 ^ 63 ≤ n ∧ n ≤ 2 ^ 63 - 1 := by omega
  have hclamp : max (-2 ^ 63) (min (2 ^ 63 - 1) n) = n := by
    rw [min_eq_right hrange.2, max_eq_right hrange.1]
  cases n with
  | ofNat k =>
    have hdigits : ∀ c ∈ Nat.toDigits 10 k, c.isDigit = true := fun c hc => Text.isDigit_of_mem_toDigits hc
    change atoi64 ((Nat.toDigits 10 k).map charByte) = _
    obtain ⟨c, ds, hds⟩ := List.exists_cons_of_ne_nil (l := Nat.toDigits 10 k) Nat.toDigits_ne_nil
    rw [hds] at hdigits ⊢
    rw [atoi64_digits hdigits, ← hds, Nat.ofDigitChars_ten_toDigits]
    exact hclamp
  | negSucc k =>
    have hdigits : ∀ c ∈ Nat.toDigits 10 (k + 1), c.isDigit = true := fun c hc => Text.isDigit_of_mem_toDigits hc
    change atoi64 (charByte '-' :: (Nat.toDigits 10 (k + 1)).map charByte) = _
    rw [atoi64_minus hdigits, Nat.ofDigitChars_ten_toDigits]
    exact hclamp

/-! ### Pairs and maps -/

/-- Both strings are not longer than `MAX_SIZE`. -/
def ShortPair (item : List UInt8 × List UInt8) : Prop := item.1.length ≤ maxSize ∧ item.2.length ≤ maxSize

theorem reads_readPair {item : List UInt8 × List UInt8} (h : ShortPair item) :
    Reads readPair (writePair item) item :=
  reads_bind (reads_readString h.1) (reads_bind_nil (reads_readString h.2) (reads_pure item))

theorem reads_readPairs {items : List (List UInt8 × List UInt8)} (hlen : items.length ≤ maxSize)
    (h : ∀ item ∈ items, ShortPair item) : Reads (readVector readPair) (writeVector writePair items) items := by
  have hread := @reads_readVector _ _ _ _ id items hlen fun item hmem => reads_readPair (h item hmem)
  rwa [List.map_id] at hread

theorem mem_sortedEntries {m : StdMap (List UInt8) (List UInt8)} {item : List UInt8 × List UInt8} :
    item ∈ sortedEntries m ↔ m.lookup item.1 = some item.2 := by
  unfold sortedEntries
  rw [(List.perm_insertionSort _ _).mem_iff, List.mem_map, ← Option.mem_def, AList.mem_lookup_iff]
  constructor
  · rintro ⟨e, he, rfl⟩
    exact he
  · intro hitem
    exact ⟨⟨item.1, item.2⟩, hitem, rfl⟩

theorem nodup_sortedEntries (m : StdMap (List UInt8) (List UInt8)) : ((sortedEntries m).map Prod.fst).Nodup := by
  have hperm : ((sortedEntries m).map Prod.fst).Perm m.keys := by
    refine ((List.perm_insertionSort _ _).map Prod.fst).trans ?_
    rw [List.map_map]
    exact .rfl
  exact hperm.nodup_iff.mpr m.keys_nodup

/-- What a map holds after items with different keys were inserted. -/
theorem lookup_insertItems (items : List (List UInt8 × List UInt8)) (hnodup : (items.map Prod.fst).Nodup)
    (m : StdMap (List UInt8) (List UInt8)) (k v : List UInt8) :
    (items.foldl (fun m item => MapLoop.insertNew item.2 m item.1) m).lookup k = some v ↔
      m.lookup k = some v ∨ (m.lookup k = none ∧ (k, v) ∈ items) := by
  induction items generalizing m with
  | nil => rw [List.foldl_nil, or_iff_left fun h => List.not_mem_nil h.2]
  | cons item items ih =>
    rw [List.map_cons, List.nodup_cons] at hnodup
    rw [List.foldl_cons, ih hnodup.2, MapLoop.lookup_insertNew, List.mem_cons]
    by_cases hk : k = item.1
    · have hnot : (k, v) ∉ items := fun hmem => hnodup.1 (hk ▸ List.mem_map_of_mem hmem)
      have hhead : (k, v) = item ↔ item.2 = v := by
        rw [Prod.ext_iff, and_iff_right hk, eq_comm]
      rw [if_pos hk, or_iff_left hnot, hhead]
      cases m.lookup k with
      | none => simp [hnot]
      | some v' => simp [hnot]
    · have hhead : (k, v) ≠ item := fun h => hk (congrArg Prod.fst h)
      simp [hk, hhead]

theorem reads_readMap {m : StdMap (List UInt8) (List UInt8)} (hlen : (sortedEntries m).length ≤ maxSize)
    (h : ∀ item ∈ sortedEntries m, ShortPair item) :
    ∃ m', Reads readMap (writeMap m) m' ∧ ∀ k, m'.lookup k = m.lookup k := by
  refine ⟨insertItems (sortedEntries m), reads_map (reads_readPairs hlen h) insertItems, fun k => ?_⟩
  refine Option.ext fun v => ?_
  rw [insertItems, lookup_insertItems _ (nodup_sortedEntries m), AList.lookup_empty, and_iff_right rfl,
    mem_sortedEntries]
  exact or_iff_right (Option.some_ne_none v).symm

/-! ### The reserved keys -/

section Reserved

variable (this : WalletTxRecord)

theorem lookup_writtenValue (k : List UInt8) :
    this.writtenValue.lookup k =
      if this.nTimeSmart ≠ 0 ∧ k = timesmartKey then some (i64tostr this.nTimeSmart)
      else if this.nOrderPos ≠ -1 ∧ k = orderPosKey then some (i64tostr this.nOrderPos)
      else if k = spentKey then some (spentText this.vfSpent)
      else if k = fromaccountKey then some this.strFromAccount
      else this.mapValue.lookup k := by
  simp only [WalletTxRecord.writtenValue, writeOrderPos]
  by_cases htime : this.nTimeSmart = 0
  · by_cases hpos : this.nOrderPos = -1
    · simp [htime, hpos, MapLoop.lookup_insert_ite]
    · simp [htime, hpos, MapLoop.lookup_insert_ite]
  · by_cases hpos : this.nOrderPos = -1
    · simp [htime, hpos, MapLoop.lookup_insert_ite]
    · simp [htime, hpos, MapLoop.lookup_insert_ite]

theorem eraseReserved_insert {k : List UInt8} (hk : k ∈ reservedKeys) (m : StdMap (List UInt8) (List UInt8))
    (v : List UInt8) : eraseReserved (m.insert k v) = eraseReserved m :=
  MapLoop.foldl_erase_insert hk m v

theorem lookup_eraseReserved_congr {m m' : StdMap (List UInt8) (List UInt8)}
    (h : ∀ k, m.lookup k = m'.lookup k) (k : List UInt8) :
    (eraseReserved m).lookup k = (eraseReserved m').lookup k := by
  unfold eraseReserved
  rw [MapLoop.lookup_foldl_erase, MapLoop.lookup_foldl_erase, h]

/-- The entries of the other fields are taken out again. -/
theorem eraseReserved_writtenValue : eraseReserved this.writtenValue = eraseReserved this.mapValue := by
  have hposition : ∀ m, eraseReserved (writeOrderPos this.nOrderPos m) = eraseReserved m := by
    intro m
    unfold writeOrderPos
    split_ifs
    · rfl
    · exact eraseReserved_insert (by decide) m _
  simp only [WalletTxRecord.writtenValue]
  by_cases htime : this.nTimeSmart = 0
  · rw [if_neg (not_not.mpr htime), hposition, eraseReserved_insert (by decide), eraseReserved_insert (by decide)]
  · rw [if_pos htime, eraseReserved_insert (by decide), hposition, eraseReserved_insert (by decide),
      eraseReserved_insert (by decide)]

end Reserved

/-! ### The round trip -/

structure CMerkleTx.Fits (merkle : CMerkleTx) : Prop where
  tx : merkle.tx.Fits
  hashBlock : merkle.hashBlock < 256 ^ 32
  vMerkleBranch : ∀ hash ∈ merkle.vMerkleBranch, hash < 256 ^ 32
  nIndex : FitsInt 4 merkle.nIndex

structure CMerkleTx.Bounded (merkle : CMerkleTx) : Prop where
  tx : merkle.tx.Bounded
  vMerkleBranch : merkle.vMerkleBranch.length ≤ maxSize

/-- With `nRounds` as the constructor sets it. -/
def CMerkleTx.received (merkle : CMerkleTx) : CMerkleTx := { merkle with tx := merkle.tx.received }

theorem reads_readMerkleTx {merkle : CMerkleTx} (h : merkle.Fits) (hb : merkle.Bounded) :
    Reads readMerkleTx merkle.write merkle.received := by
  have hbranch : Reads (readVector (readLE 32)) (writeVector (toLE 32) merkle.vMerkleBranch) merkle.vMerkleBranch := by
    have hread := @reads_readVector _ _ _ _ id merkle.vMerkleBranch hb.vMerkleBranch fun hash hmem =>
      reads_readLE (h.vMerkleBranch hash hmem)
    rwa [List.map_id] at hread
  refine reads_bind (reads_readTransaction_of_bounded h.tx hb.tx) ?_
  refine reads_bind (reads_readLE h.hashBlock) ?_
  refine reads_bind hbranch ?_
  exact reads_bind_nil (reads_readInt h.nIndex) (reads_pure merkle.received)

namespace WalletTxRecord

variable (this : WalletTxRecord)

/-- The values are in the ranges of their types. -/
structure Fits : Prop where
  merkle : this.merkle.Fits
  vtxPrev : ∀ merkle ∈ this.vtxPrev, merkle.Fits
  fTimeReceivedIsTxTime : this.fTimeReceivedIsTxTime < 256 ^ 4
  nTimeReceived : this.nTimeReceived < 256 ^ 4
  nTimeSmart : this.nTimeSmart < 256 ^ 4
  nOrderPos : FitsInt 8 this.nOrderPos

/-- No vector, map or string that is written is longer than `MAX_SIZE`. -/
structure Bounded : Prop where
  merkle : this.merkle.Bounded
  length_vtxPrev : this.vtxPrev.length ≤ maxSize
  vtxPrev : ∀ merkle ∈ this.vtxPrev, merkle.Bounded
  length_mapValue : (sortedEntries this.writtenValue).length ≤ maxSize
  mapValue : ∀ item ∈ sortedEntries this.writtenValue, ShortPair item
  length_vOrderForm : this.vOrderForm.length ≤ maxSize
  vOrderForm : ∀ item ∈ this.vOrderForm, ShortPair item

/-- The record that is read has the same fields, `nRounds` apart, and the same flags. -/
structure SameRecord (r : WalletTxRecord) : Prop where
  merkle : r.merkle = this.merkle.received
  vtxPrev : r.vtxPrev = this.vtxPrev.map CMerkleTx.received
  mapValue : ∀ k, r.mapValue.lookup k = this.mapValue.lookup k
  vOrderForm : r.vOrderForm = this.vOrderForm
  fTimeReceivedIsTxTime : r.fTimeReceivedIsTxTime = this.fTimeReceivedIsTxTime
  nTimeReceived : r.nTimeReceived = this.nTimeReceived
  nTimeSmart : r.nTimeSmart = this.nTimeSmart
  fFromMe : r.fFromMe = this.fFromMe
  strFromAccount : r.strFromAccount = this.strFromAccount
  vfSpent : r.vfSpent.map (· ≠ 0) = this.vfSpent.map (· ≠ 0)
  nOrderPos : r.nOrderPos = this.nOrderPos

variable {this}

section Smuggled

variable {m : StdMap (List UInt8) (List UInt8)}

section

variable (hm : ∀ k, m.lookup k = this.writtenValue.lookup k)

include hm

theorem lookup_fromaccount :
    (m.lookup fromaccountKey).getD [] = this.strFromAccount := by
  have h1 : fromaccountKey ≠ timesmartKey := by decide
  have h2 : fromaccountKey ≠ orderPosKey := by decide
  have h3 : fromaccountKey ≠ spentKey := by decide
  rw [hm, lookup_writtenValue, if_neg fun h => h1 h.2, if_neg fun h => h2 h.2, if_neg h3, if_pos rfl, Option.getD_some]

theorem readSpent_eq (nOutputs : Nat) (fSpent : UInt8) :
    (readSpent m nOutputs fSpent).map (· ≠ 0) = this.vfSpent.map (· ≠ 0) := by
  have h1 : spentKey ≠ timesmartKey := by decide
  have h2 : spentKey ≠ orderPosKey := by decide
  have hlookup : m.lookup spentKey = some (spentText this.vfSpent) := by
    rw [hm, lookup_writtenValue, if_neg fun h => h1 h.2, if_neg fun h => h2 h.2, if_pos rfl]
  unfold readSpent
  rw [hlookup]
  change ((spentText this.vfSpent).map _).map _ = _
  rw [spentText, List.map_map, List.map_map]
  refine List.map_congr_left fun f _ => ?_
  by_cases hf : f = 0 <;> simp [hf]

theorem readOrderPos_eq
    (habsent : this.mapValue.lookup orderPosKey = none) (hfits : FitsInt 8 this.nOrderPos) :
    readOrderPos m = this.nOrderPos := by
  have h1 : orderPosKey ≠ timesmartKey := by decide
  have h2 : orderPosKey ≠ spentKey := by decide
  have h3 : orderPosKey ≠ fromaccountKey := by decide
  unfold readOrderPos
  rw [hm, lookup_writtenValue, if_neg fun h => h1 h.2]
  by_cases hpos : this.nOrderPos = -1
  · rw [if_neg fun h => h.1 hpos, if_neg h2, if_neg h3, habsent, hpos]
  · rw [if_pos ⟨hpos, rfl⟩]
    exact atoi64_i64tostr hfits

theorem readTimeSmart_eq
    (habsent : this.mapValue.lookup timesmartKey = none) (hfits : this.nTimeSmart < 256 ^ 4) :
    readTimeSmart m = this.nTimeSmart := by
  have h1 : timesmartKey ≠ orderPosKey := by decide
  have h2 : timesmartKey ≠ spentKey := by decide
  have h3 : timesmartKey ≠ fromaccountKey := by decide
  unfold readTimeSmart
  rw [hm, lookup_writtenValue]
  by_cases htime : this.nTimeSmart = 0
  · rw [if_neg fun h => h.1 htime, if_neg fun h => h1 h.2, if_neg h2, if_neg h3, habsent, htime]
  · rw [if_pos ⟨htime, rfl⟩]
    have hfits8 : FitsInt 8 (this.nTimeSmart : Int) := by
      unfold FitsInt
      omega
    change (atoi64 (i64tostr this.nTimeSmart) % 2 ^ 32).toNat = _
    rw [atoi64_i64tostr hfits8]
    omega

end

end Smuggled

theorem reads_write (hfits : this.Fits) (hbounded : this.Bounded)
    (hkeys : ∀ k ∈ reservedKeys, this.mapValue.lookup k = none) :
    ∃ r, Reads readWalletTx this.write.1 r ∧ this.SameRecord r := by
  have herased : eraseReserved this.writtenValue = this.mapValue := by
    rw [eraseReserved_writtenValue]
    exact MapLoop.foldl_erase_of_absent hkeys
  obtain ⟨m, hread, hm⟩ := reads_readMap hbounded.length_mapValue hbounded.mapValue
  have hbyte : ∀ b : UInt8, Reads (readLE 1) (toLE 1 b.toNat) b.toNat := fun b => reads_readLE b.toNat_lt
  refine ⟨.afterRead this.merkle.received (this.vtxPrev.map CMerkleTx.received) m this.vOrderForm
    this.fTimeReceivedIsTxTime this.nTimeReceived (.ofNat this.fFromMe.toNat) (.ofNat this.fSpent.toNat), ?_, ?_⟩
  · -- the fields in the order of the stream
    refine reads_bind (reads_readMerkleTx hfits.merkle hbounded.merkle) ?_
    refine reads_bind (reads_readVector hbounded.length_vtxPrev fun merkle hmem =>
      reads_readMerkleTx (hfits.vtxPrev merkle hmem) (hbounded.vtxPrev merkle hmem)) ?_
    refine reads_bind hread ?_
    refine reads_bind (reads_readPairs hbounded.length_vOrderForm hbounded.vOrderForm) ?_
    refine reads_bind (reads_readLE hfits.fTimeReceivedIsTxTime) ?_
    refine reads_bind (reads_readLE hfits.nTimeReceived) ?_
    refine reads_bind (hbyte this.fFromMe) ?_
    exact reads_bind_nil (hbyte this.fSpent) (reads_pure _)
  · refine ⟨rfl, rfl, fun k => ?_, rfl, rfl, rfl, ?_, ?_, ?_, ?_, ?_⟩
    · change (eraseReserved m).lookup k = _
      rw [lookup_eraseReserved_congr hm, herased]
    · exact readTimeSmart_eq hm (hkeys _ (by decide)) hfits.nTimeSmart
    · exact UInt8.ofNat_toNat
    · exact lookup_fromaccount hm
    · exact readSpent_eq hm _ _
    · exact readOrderPos_eq hm (hkeys _ (by decide)) hfits.nOrderPos

/-- **Round trip** of a wallet transaction, and writing leaves it as it is. -/
theorem readWalletTx_write (hfits : this.Fits) (hbounded : this.Bounded)
    (hkeys : ∀ k ∈ reservedKeys, this.mapValue.lookup k = none) :
    (∃ r, Reads readWalletTx this.write.1 r ∧ this.SameRecord r) ∧ this.write.2 = this := by
  refine ⟨reads_write hfits hbounded hkeys, ?_⟩
  unfold write
  rw [eraseReserved_writtenValue]
  exact congrArg (fun m => { this with mapValue := m }) (MapLoop.foldl_erase_of_absent hkeys)

def sample : WalletTxRecord where
  merkle := {
    tx :=
      { nTime := 5, vin := [{ prevout := ⟨1, 0⟩ }], vout := [{ nValue := 7, nRounds := 3, scriptPubKey := [0x51] }] }
    hashBlock := 9
    vMerkleBranch := [3]
    nIndex := 2 }
  mapValue := (∅ : StdMap (List UInt8) (List UInt8)).insert (textBytes "n_0") (textBytes "rent")
  vOrderForm := [(textBytes "Message", textBytes "hello")]
  nTimeReceived := 6
  nTimeSmart := 4294967295
  fFromMe := 1
  vfSpent := [2, 0, 1]
  nOrderPos := -7

theorem sample_fits : sample.Fits where
  merkle := by
    refine ⟨⟨by decide, by decide, ?_, ?_, by decide⟩, by decide, by decide, by decide⟩
    · unfold CTxIn.Fits
      decide
    · unfold CTxOut.Fits
      decide
  vtxPrev _ hmem := absurd hmem List.not_mem_nil
  fTimeReceivedIsTxTime := by decide
  nTimeReceived := by decide
  nTimeSmart := by decide
  nOrderPos := by decide

theorem sample_bounded : sample.Bounded where
  merkle := ⟨⟨⟨by decide, by decide⟩, by decide, by decide⟩, by decide⟩
  length_vtxPrev := by decide
  vtxPrev _ hmem := absurd hmem List.not_mem_nil
  length_mapValue := by decide
  mapValue := by
    unfold ShortPair
    decide
  length_vOrderForm := by decide
  vOrderForm := by
    unfold ShortPair
    decide

theorem readWalletTx_write_sample :
    (∃ r, Reads readWalletTx sample.write.1 r ∧ sample.SameRecord r) ∧ sample.write.2 = sample :=
  readWalletTx_write sample_fits sample_bounded (by decide)

/-! ### A record that is not read back -/

def emptyMerkle : CMerkleTx := ⟨{ nTime := 0, vin := [], vout := [] }, 0, [], -1⟩

theorem reads_emptyMerkle : Reads readMerkleTx emptyMerkle.write emptyMerkle.received :=
  reads_readMerkleTx ⟨⟨by decide, by decide, nofun, nofun, by decide⟩, by decide, nofun, by decide⟩
    ⟨⟨⟨by decide, nofun⟩, by decide, nofun⟩, by decide⟩

def withSpent (vfSpent : List UInt8) : WalletTxRecord := { merkle := emptyMerkle, vfSpent := vfSpent }

theorem sortedEntries_withSpent (vfSpent : List UInt8) :
    sortedEntries (withSpent vfSpent).writtenValue = [(fromaccountKey, []), (spentKey, spentText vfSpent)] := rfl

theorem fails_withSpent {vfSpent : List UInt8} (hlong : maxSize < vfSpent.length) (hlen : vfSpent.length < 256 ^ 8) :
    Fails readWalletTx (withSpent vfSpent).write.1 := by
  have hlength : (spentText vfSpent).length = vfSpent.length := by rw [spentText, List.length_map]
  have hspent : Fails readPair (writePair (spentKey, spentText vfSpent)) := by
    have hstring : Fails readString (writeBytes (spentText vfSpent)) := by
      refine fails_readString ?_ ?_
      · rw [hlength]
        exact hlong
      · rw [hlength]
        exact hlen
    have hkey : Reads readString (writeBytes spentKey) spentKey := reads_readString (by decide)
    refine fails_bind hkey ?_
    have hleft := fails_bind_left hstring (f := fun second => pure (spentKey, second)) []
    rwa [List.append_nil] at hleft
  have hmap : Fails readMap (writeMap (withSpent vfSpent).writtenValue) := by
    refine fails_map ?_ insertItems
    have hsize : Reads readCompactSize (writeCompactSize 2) 2 := reads_readCompactSize (by decide)
    rw [writeMap, sortedEntries_withSpent]
    refine fails_bind hsize ?_
    refine fails_readMany [(fromaccountKey, [])] [] (f := id) (fun item hmem => ?_) hspent
    rw [List.mem_singleton.mp hmem]
    exact reads_readPair ⟨by decide, by decide⟩
  have hprev : Reads (readVector readMerkleTx) (writeVector CMerkleTx.write []) [] :=
    reads_readVector (f := CMerkleTx.received) (by decide) nofun
  -- what is before the map is read, and the map is not
  refine fails_bind reads_emptyMerkle ?_
  refine fails_bind hprev ?_
  exact fails_bind_left hmap _

/-- A record with more flags than `MAX_SIZE` is written, and cannot be read; `nRounds` is not written. -/
theorem readWalletTx_notBack :
    readWalletTx (withSpent (List.replicate (maxSize + 1) 1)).write.1 = none ∧
      ∃ r, Reads readWalletTx sample.write.1 r ∧ r.merkle.tx ≠ sample.merkle.tx := by
  constructor
  · have hfails : Fails readWalletTx (withSpent (List.replicate (maxSize + 1) 1)).write.1 := by
      refine fails_withSpent ?_ ?_
      · rw [List.length_replicate]
        exact Nat.lt_succ_self _
      · rw [List.length_replicate]
        decide
    have hnil := hfails []
    rwa [List.append_nil] at hnil
  · obtain ⟨r, hread, hsame⟩ := reads_write sample_fits sample_bounded (by decide)
    refine ⟨r, hread, ?_⟩
    rw [hsame.merkle]
    decide

end WalletTxRecord

end Sphinx
