import Mathlib.Data.List.GetD
import Sphinx.Base58

/-!
# Base 58 there and back

Both functions keep a number in a buffer while digits of the other base come in, so each is described by that number:

* `encodeBase58_eq`: what is written are the digits of the number of the bytes, and the assertion never fails;
* `decodeBase58_some`, `decodeBase58_of_fits`: a text that is read is blanks, ones, digits and blanks, and the value
  has the number of these digits;
* `base58_roundTrip_iff`: the functions undo one another as long as the sizes fit into an `int` and there is no zero
  within the text.
-/

namespace Sphinx

open Codec Radix

variable {c : UInt8} {ds : List Nat} {v psz s : List UInt8}

/-! ### The alphabet -/

/-- The character of a digit. -/
def base58Char (d : Nat) : UInt8 := pszBase58.getD d 0

theorem base58Char_spec : ∀ d < 58, pszBase58.idxOf? (base58Char d) = some d ∧ isSpace (base58Char d) = false ∧
    base58Char d ≠ 0 ∧ (base58Char d = 49 ↔ d = 0) := by
  decide +kernel

theorem idxOf?_pszBase58 {ch : Nat} (h : pszBase58.idxOf? c = some ch) : ch < 58 ∧ base58Char ch = c := by
  obtain ⟨hlt, hget, -⟩ := List.findIdx?_eq_some_iff_getElem.mp h
  refine ⟨hlt, ?_⟩
  rw [base58Char, List.getD_eq_getElem _ _ hlt]
  exact eq_of_beq hget

theorem map_base58Char_inj {ds' : List Nat} (hlt : ∀ d ∈ ds, d < 58) (hlt' : ∀ d ∈ ds', d < 58)
    (h : ds.map base58Char = ds'.map base58Char) : ds = ds' := by
  have hback {l : List Nat} (hl : ∀ d ∈ l, d < 58) : (l.map base58Char).map pszBase58.idxOf? = l.map some := by
    rw [List.map_map]
    exact List.map_congr_left fun d hd => (base58Char_spec d (hl d hd)).1
  have hsome := hback hlt'
  rw [← h, hback hlt] at hsome
  exact List.map_injective_iff.mpr (Option.some_injective Nat) hsome

/-! ### The loop of the decoder -/

/-- The buffer holds `n`, in its first `length` digits. -/
structure Base58State (size : Nat) (b256 : List Nat) (length n : Nat) : Prop where
  holds : Holds 256 size b256 n
  zero : ∀ d ∈ b256.drop length, d = 0

namespace Base58State

variable {size n length : Nat} {b256 : List Nat}

theorem start (size : Nat) : Base58State size (List.replicate size 0) 0 0 where
  holds := .replicate_zero (by decide) size
  zero d hd := List.eq_of_mem_replicate (List.mem_of_mem_drop hd)

theorem step (h : Base58State size b256 length n) {ch : Nat} (hcarry : (mulAddUsed 256 58 ch length b256).2.1 = 0) :
    Base58State size (mulAddUsed 256 58 ch length b256).1 (mulAddUsed 256 58 ch length b256).2.2 (ch + 58 * n) := by
  obtain ⟨heq, hzero⟩ := mulAddUsed_eq (b := 256) (m := 58) ch length h.zero
  obtain ⟨hfst, hsnd⟩ := Prod.ext_iff.mp heq
  dsimp only at hfst hsnd
  refine ⟨?_, hzero⟩
  rw [hfst]
  exact h.holds.mulAdd (by decide) (by rw [← hsnd]; exact hcarry)

theorem carry_eq_zero (h : Base58State size b256 length n) {ch : Nat} (hfits : ch + 58 * n < 256 ^ size) :
    (mulAddUsed 256 58 ch length b256).2.1 = 0 := by
  obtain ⟨heq, -⟩ := mulAddUsed_eq (b := 256) (m := 58) ch length h.zero
  have hsnd := congrArg Prod.snd heq
  dsimp only at hsnd
  rw [hsnd]
  exact h.holds.carry_eq_zero hfits

theorem strip (h : Base58State size b256 length n) :
    (b256.take length).reverse.dropWhile (· = 0) = (Nat.digits 256 n).reverse := by
  rw [← h.holds.strip (by decide)]
  conv_rhs => rw [← List.take_append_drop length b256, List.reverse_append]
  rw [List.dropWhile_append_of_pos]
  intro d hd
  exact decide_eq_true (h.zero d (List.mem_reverse.mp hd))

end Base58State

/-- **What the loop has read**, where it ends at the end of the text or at a blank. -/
theorem decodeChars_some {size : Nat} : ∀ {psz : List UInt8} {b256 : List Nat} {length n : Nat}
    {b256' : List Nat} {length' : Nat} {rest : List UInt8}, Base58State size b256 length n →
    decodeChars psz b256 length = .ok (some (b256', length', rest)) →
    ∃ ds : List Nat, psz = ds.map base58Char ++ rest ∧ (∀ d ∈ ds, d < 58) ∧
      (∀ c ∈ rest.head?, isSpace c = true) ∧
      Base58State size b256' length' (feed 58 n ds) := by
  intro psz
  induction psz with
  | nil =>
    intro b256 length n b256' length' rest hstate h
    rw [decodeChars] at h
    cases h
    exact ⟨[], rfl, fun _ hd => absurd hd List.not_mem_nil, fun _ hc => (nomatch hc), hstate⟩
  | cons c psz ih =>
    intro b256 length n b256' length' rest hstate h
    rw [decodeChars] at h
    split_ifs at h with hspace
    · cases h
      refine ⟨[], rfl, fun _ hd => absurd hd List.not_mem_nil, ?_, hstate⟩
      rintro x ⟨⟩
      exact hspace
    · cases hch : pszBase58.idxOf? c with
      | none =>
        rw [hch] at h
        cases h
      | some ch =>
        rw [hch] at h
        dsimp only at h
        split_ifs at h with hcarry
        obtain ⟨hlt, rfl⟩ := idxOf?_pszBase58 hch
        obtain ⟨ds, rfl, hds, hrest, hstate'⟩ := ih (hstate.step (not_not.mp hcarry)) h
        exact ⟨ch :: ds, rfl, List.forall_mem_cons.mpr ⟨hlt, hds⟩, hrest, hstate'⟩

theorem decodeChars_ok {size : Nat} : ∀ {psz : List UInt8} {b256 : List Nat} {length n : Nat},
    Base58State size b256 length n → (n + 1) * 58 ^ psz.length ≤ 256 ^ size →
    ∃ r, decodeChars psz b256 length = .ok r := by
  intro psz
  induction psz with
  | nil => exact fun _ _ => ⟨_, rfl⟩
  | cons c psz ih =>
    intro b256 length n hstate hfits
    rw [decodeChars]
    split_ifs with hspace
    · exact ⟨_, rfl⟩
    · cases hch : pszBase58.idxOf? c with
      | none => exact ⟨_, rfl⟩
      | some ch =>
        have hlt := (idxOf?_pszBase58 hch).1
        have hnext : (ch + 58 * n + 1) * 58 ^ psz.length ≤ 256 ^ size := by
          refine le_trans ?_ hfits
          rw [List.length_cons, pow_succ', ← Nat.mul_assoc]
          exact Nat.mul_le_mul_right _ (by omega)
        have hcarry : (mulAddUsed 256 58 ch length b256).2.1 = 0 := by
          have hpow : 1 ≤ 58 ^ psz.length := Nat.one_le_pow _ _ (by decide)
          exact hstate.carry_eq_zero (by nlinarith)
        dsimp only
        rw [if_neg (not_not.mpr hcarry)]
        exact ih (hstate.step hcarry) hnext

theorem decodeChars_ne_none (hlt : ∀ d ∈ ds, d < 58) {rest : List UInt8}
    (hrest : ∀ c ∈ rest.head?, isSpace c = true) :
    ∀ {b256 : List Nat} {length : Nat}, decodeChars (ds.map base58Char ++ rest) b256 length ≠ .ok none := by
  induction ds with
  | nil =>
    intro b256 length h
    cases rest with
    | nil => cases h
    | cons c rest =>
      rw [List.map_nil, List.nil_append, decodeChars, if_pos (hrest c rfl)] at h
      cases h
  | cons d ds ih =>
    intro b256 length h
    obtain ⟨hd, hds⟩ := List.forall_mem_cons.mp hlt
    obtain ⟨hidx, hspace, -, -⟩ := base58Char_spec d hd
    rw [List.map_cons, List.cons_append, decodeChars, hspace, if_neg Bool.false_ne_true, hidx] at h
    dsimp only at h
    split_ifs at h
    exact ih hds h

/-! ### The sizes of the buffers -/

theorem pow_256_le (k : Nat) : 256 ^ k ≤ 58 ^ (k * 138 / 100 + 1) :=
  pow_le_pow_size (by decide) (by decide) (by decide +kernel) k

theorem pow_58_le (k : Nat) : 58 ^ k ≤ 256 ^ (k * 733 / 1000 + 1) :=
  pow_le_pow_size (by decide) (by decide) (by decide +kernel) k

/-! ### The encoder -/

theorem encodeBytes_ok {size : Nat} : ∀ {bytes : List UInt8} {b58 : List Nat} {n : Nat}, Holds 58 size b58 n →
    (n + 1) * 256 ^ bytes.length ≤ 58 ^ size →
    ∃ b58', encodeBytes bytes b58 = .ok b58' ∧ Holds 58 size b58' (feed 256 n (bytes.map UInt8.toNat)) := by
  intro bytes
  induction bytes with
  | nil => exact fun hholds _ => ⟨_, rfl, hholds⟩
  | cons ch bytes ih =>
    intro b58 n hholds hfits
    have hlt := ch.toNat_lt
    have hnext : (ch.toNat + 256 * n + 1) * 256 ^ bytes.length ≤ 58 ^ size := by
      refine le_trans ?_ hfits
      rw [List.length_cons, pow_succ', ← Nat.mul_assoc]
      exact Nat.mul_le_mul_right _ (by omega)
    have hcarry : (mulAdd 58 256 ch.toNat b58).2 = 0 := by
      have hpow : 1 ≤ 256 ^ bytes.length := Nat.one_le_pow _ _ (by decide)
      exact hholds.carry_eq_zero (by nlinarith)
    rw [encodeBytes, if_neg (not_not.mpr hcarry)]
    exact ih (hholds.mulAdd (by decide) hcarry) hnext

/-- The zeros in front. -/
def base58Zeroes (v : List UInt8) : Nat := (v.takeWhile (· = 0)).length

/-- The number of the bytes behind them. -/
def base58Number (v : List UInt8) : Nat := feed 256 0 ((v.dropWhile (· = 0)).map UInt8.toNat)

def base58Digits (v : List UInt8) : List Nat := (Nat.digits 58 (base58Number v)).reverse

/-- A one for each zero in front, and the digits. -/
def base58Text (v : List UInt8) : List UInt8 :=
  List.replicate (base58Zeroes v) 49 ++ (base58Digits v).map base58Char

theorem encodeBase58_eq (v : List UInt8) : encodeBase58 v =
    if base58Zeroes v < 2 ^ 31 ∧ (v.dropWhile (· = 0)).length * 138 < 2 ^ 63 then .ok (base58Text v)
    else .error .overflow := by
  unfold encodeBase58
  dsimp only
  rw [show (v.takeWhile (· = 0)).length = base58Zeroes v from rfl]
  by_cases hzeroes : base58Zeroes v < 2 ^ 31
  · rw [if_neg (not_le.mpr hzeroes)]
    by_cases hlen : (v.dropWhile (· = 0)).length * 138 < 2 ^ 63
    · rw [if_neg (not_le.mpr hlen), if_pos ⟨hzeroes, hlen⟩]
      obtain ⟨b58, hb58, hholds⟩ : ∃ b58, encodeBytes (v.dropWhile (· = 0))
          (List.replicate ((v.dropWhile (· = 0)).length * 138 / 100 + 1) 0) = .ok b58 ∧ Holds 58 _ b58 _ :=
        encodeBytes_ok (.replicate_zero (by decide) _) (by rw [Nat.zero_add, Nat.one_mul]; exact pow_256_le _)
      rw [hb58, Except.map, encodeEnd, hholds.strip (by decide)]
      rfl
    · rw [if_pos (not_lt.mp hlen), if_neg fun h => hlen h.2]
  · rw [if_pos (not_lt.mp hzeroes), if_neg fun h => hzeroes h.1]

theorem takeWhile_replicate_append {l : List UInt8} (hhead : l.head? ≠ some c) (n : Nat) :
    (List.replicate n c ++ l).takeWhile (· = c) = List.replicate n c := by
  rw [List.takeWhile_append_of_pos fun x hx => decide_eq_true (List.eq_of_mem_replicate hx)]
  cases l with
  | nil => simp
  | cons x l => simpa using hhead

theorem dropWhile_replicate_append {l : List UInt8} (hhead : l.head? ≠ some c) (n : Nat) :
    (List.replicate n c ++ l).dropWhile (· = c) = l := by
  rw [List.dropWhile_append_of_pos fun x hx => decide_eq_true (List.eq_of_mem_replicate hx)]
  cases l with
  | nil => rfl
  | cons x l => simpa using hhead

theorem takeWhile_zero (v : List UInt8) : v.takeWhile (· = 0) = List.replicate (base58Zeroes v) 0 :=
  List.eq_replicate_of_mem fun x hx => by simpa using List.mem_takeWhile_imp hx

theorem head?_dropWhile_ne (c : UInt8) : (v.dropWhile (· = c)).head? ≠ some c := by
  intro hhead
  have hne := List.head?_dropWhile_not (fun x : UInt8 => decide (x = c)) v
  rw [hhead] at hne
  simp at hne

theorem digits_base58Number (v : List UInt8) :
    (Nat.digits 256 (base58Number v)).reverse = (v.dropWhile (· = 0)).map UInt8.toNat := by
  refine digits_feed (by decide) ?_ ?_
  · intro x hx
    obtain ⟨c, -, rfl⟩ := List.mem_map.mp hx
    exact c.toNat_lt
  · rw [List.head?_map]
    intro hhead
    obtain ⟨c, hc, hzero⟩ := Option.map_eq_some_iff.mp hhead
    rw [UInt8.toNat.inj (hzero.trans UInt8.toNat_zero.symm)] at hc
    exact head?_dropWhile_ne 0 hc

/-- The bytes with so many zeros and this number. -/
def base58Bytes (zeroes n : Nat) : List UInt8 :=
  List.replicate zeroes 0 ++ (Nat.digits 256 n).reverse.map UInt8.ofNat

theorem base58Bytes_number (v : List UInt8) : base58Bytes (base58Zeroes v) (base58Number v) = v := by
  rw [base58Bytes, digits_base58Number, List.map_map, ← takeWhile_zero]
  have hback : (v.dropWhile (· = 0)).map (UInt8.ofNat ∘ UInt8.toNat) = v.dropWhile (· = 0) := by
    conv_rhs => rw [← List.map_id (v.dropWhile (· = 0))]
    exact List.map_congr_left fun c _ => UInt8.ofNat_toNat
  rw [hback, List.takeWhile_append_dropWhile]

/-! ### The decoder -/

theorem decodeBase58_eq {chars : List UInt8} {zeroes : Nat}
    (hpsz : psz.dropWhile isSpace = List.replicate zeroes 49 ++ chars) (hhead : chars.head? ≠ some 49)
    (hzeroes : zeroes < 2 ^ 31) (hsize : 0 ≤ decodeSize chars.length) :
    decodeBase58 psz =
      (decodeChars chars (List.replicate (decodeSize chars.length).toNat 0) 0).map (decodeEnd zeroes) := by
  unfold decodeBase58
  dsimp only
  rw [hpsz, takeWhile_replicate_append hhead, dropWhile_replicate_append hhead, List.length_replicate,
    if_neg (not_le.mpr hzeroes), if_neg (not_lt.mpr hsize)]

theorem decodeBase58_ranges {r : Option (List UInt8)} (h : decodeBase58 psz = .ok r) :
    ((psz.dropWhile isSpace).takeWhile (· = 49)).length < 2 ^ 31 ∧
      0 ≤ decodeSize ((psz.dropWhile isSpace).dropWhile (· = 49)).length := by
  unfold decodeBase58 at h
  dsimp only at h
  split_ifs at h with hzeroes hsize
  exact ⟨not_le.mp hzeroes, not_lt.mp hsize⟩

/-- **What is read**: blanks, ones, digits and blanks. -/
theorem decodeBase58_some (h : decodeBase58 psz = .ok (some v)) :
    ∃ zeroes ds rest, psz.dropWhile isSpace = List.replicate zeroes 49 ++ (ds.map base58Char ++ rest) ∧
      zeroes < 2 ^ 31 ∧ (∀ d ∈ ds, d < 58) ∧ ds.head? ≠ some 0 ∧ (∀ c ∈ rest, isSpace c = true) ∧
      0 ≤ decodeSize (ds.length + rest.length) ∧
      feed 58 0 ds < 256 ^ (decodeSize (ds.length + rest.length)).toNat ∧ v = base58Bytes zeroes (feed 58 0 ds) := by
  obtain ⟨hzeroes, hsize⟩ := decodeBase58_ranges h
  have hones : (psz.dropWhile isSpace).takeWhile (· = 49) =
      List.replicate ((psz.dropWhile isSpace).takeWhile (· = 49)).length 49 :=
    List.eq_replicate_of_mem fun x hx => by simpa using List.mem_takeWhile_imp hx
  have hpsz := (List.takeWhile_append_dropWhile (p := (· = 49)) (l := psz.dropWhile isSpace)).symm
  rw [hones] at hpsz
  have hhead : ((psz.dropWhile isSpace).dropWhile (· = 49)).head? ≠ some 49 := head?_dropWhile_ne 49
  generalize ((psz.dropWhile isSpace).takeWhile (· = 49)).length = zeroes at *
  generalize (psz.dropWhile isSpace).dropWhile (· = 49) = chars at *
  rw [decodeBase58_eq hpsz hhead hzeroes hsize] at h
  cases hloop : decodeChars chars (List.replicate (decodeSize chars.length).toNat 0) 0 with
  | error e =>
    rw [hloop] at h
    cases h
  | ok r =>
    rw [hloop, Except.map, Except.ok.injEq] at h
    cases r with
    | none => cases h
    | some r =>
      obtain ⟨b256, length, rest⟩ := r
      obtain ⟨ds, rfl, hds, -, hstate⟩ := decodeChars_some (Base58State.start _) hloop
      rw [decodeEnd] at h
      split_ifs at h with hrest
      rw [not_not, List.dropWhile_eq_nil_iff] at hrest
      rw [List.length_append, List.length_map] at hsize hstate
      refine ⟨zeroes, ds, rest, hpsz, hzeroes, hds, ?_, hrest, hsize, hstate.holds.lt_pow (by decide), ?_⟩
      · intro hzero
        apply hhead
        rw [List.head?_append, List.head?_map, hzero]
        rfl
      · rw [hstate.strip] at h
        exact (Option.some.inj h).symm

/-! ### There and back -/

theorem tail_base58Bytes (n : Nat) :
    ((Nat.digits 256 n).reverse.map UInt8.ofNat).map UInt8.toNat = (Nat.digits 256 n).reverse := by
  rw [List.map_map]
  conv_rhs => rw [← List.map_id (Nat.digits 256 n).reverse]
  refine List.map_congr_left fun d hd => ?_
  have hlt : d < 256 := Nat.digits_lt_base (by decide) (List.mem_reverse.mp hd)
  exact UInt8.toNat_ofNat_of_lt' hlt

theorem head?_tail_base58Bytes (n : Nat) : ((Nat.digits 256 n).reverse.map UInt8.ofNat).head? ≠ some 0 := by
  intro hhead
  apply head?_digits 256 n
  rw [← tail_base58Bytes, List.head?_map, hhead]
  rfl

theorem base58Zeroes_bytes (zeroes n : Nat) : base58Zeroes (base58Bytes zeroes n) = zeroes := by
  rw [base58Zeroes, base58Bytes, takeWhile_replicate_append (head?_tail_base58Bytes n), List.length_replicate]

theorem base58Number_bytes (zeroes n : Nat) : base58Number (base58Bytes zeroes n) = n := by
  rw [base58Number, base58Bytes, dropWhile_replicate_append (head?_tail_base58Bytes n), tail_base58Bytes, feed_digits]

theorem length_dropWhile_bytes (v : List UInt8) :
    (v.dropWhile (· = 0)).length = (Nat.digits 256 (base58Number v)).length := by
  have hlen := congrArg List.length (digits_base58Number v)
  rw [List.length_reverse, List.length_map] at hlen
  exact hlen.symm

theorem bmod_lt (x : Int) : x.bmod (2 ^ 32) < 2 ^ 31 := by
  have h : x.bmod (2 ^ 32) < ((2 ^ 32 : Nat) + 1) / 2 := Int.bmod_lt (by norm_num)
  omega

theorem decodeSize_lt (n : Nat) : decodeSize n < 2 ^ 31 := by
  unfold decodeSize
  exact bmod_lt _

/-- A text without the blanks around it. -/
def trimSpaces (s : List UInt8) : List UInt8 := ((s.dropWhile isSpace).reverse.dropWhile isSpace).reverse

theorem dropWhile_of_forall (h : ∀ c ∈ s, isSpace c = false) : s.dropWhile isSpace = s := by
  cases s with
  | nil => rfl
  | cons c s => rw [List.dropWhile_cons, h c List.mem_cons_self, if_neg Bool.false_ne_true]

theorem isSpace_ones {zeroes : Nat} (hds : ∀ d ∈ ds, d < 58) :
    ∀ c ∈ List.replicate zeroes 49 ++ ds.map base58Char, isSpace c = false := by
  intro c hc
  rcases List.mem_append.mp hc with hc | hc
  · rw [List.eq_of_mem_replicate hc]
    rfl
  · obtain ⟨d, hd, rfl⟩ := List.mem_map.mp hc
    exact (base58Char_spec d (hds d hd)).2.1

theorem head?_map_base58Char (hds : ∀ d ∈ ds, d < 58) (hhead : ds.head? ≠ some 0) :
    (ds.map base58Char).head? ≠ some 49 := by
  cases ds with
  | nil => exact fun h => (nomatch h)
  | cons d ds =>
    intro h
    rw [List.map_cons, List.head?_cons, Option.some.injEq, (base58Char_spec d (hds d List.mem_cons_self)).2.2.2] at h
    exact hhead (congrArg some h)

/-- **A text that is read is written again**, without the blanks around it. -/
theorem encodeBase58_of_decode (h : decodeBase58 psz = .ok (some v)) :
    encodeBase58 v = .ok (trimSpaces psz) := by
  obtain ⟨zeroes, ds, rest, hpsz, hzeroes, hds, hhead, hrest, -, hlt, rfl⟩ := decodeBase58_some h
  have hlen : (Nat.digits 256 (feed 58 0 ds)).length < 2 ^ 31 := by
    have hle := (Nat.digits_length_le_iff (by decide) _).mpr hlt
    have hsize := decodeSize_lt (ds.length + rest.length)
    omega
  have htrim : trimSpaces psz = List.replicate zeroes 49 ++ ds.map base58Char := by
    rw [trimSpaces, hpsz, ← List.append_assoc, List.reverse_append,
      List.dropWhile_append_of_pos fun c hc => hrest c (List.mem_reverse.mp hc),
      dropWhile_of_forall fun c hc => isSpace_ones hds c (List.mem_reverse.mp hc), List.reverse_reverse]
  rw [encodeBase58_eq, base58Zeroes_bytes, length_dropWhile_bytes, base58Number_bytes,
    if_pos ⟨hzeroes, by omega⟩, base58Text, base58Zeroes_bytes, base58Digits, base58Number_bytes,
    digits_feed (by decide) hds hhead, htrim]

/-! ### The sizes that fit -/

/-- The zeros can be counted, and the size of the decoder's buffer computed, in an `int`. -/
def Base58Fits (v : List UInt8) : Prop :=
  base58Zeroes v < 2 ^ 31 ∧ (base58Digits v).length * 733 / 1000 + 1 < 2 ^ 31

theorem decodeSize_of_lt {n : Nat} (h : n * 733 / 1000 + 1 < 2 ^ 31) : decodeSize n = (n * 733 / 1000 + 1 : Nat) := by
  have hmod : n * 733 % 2 ^ 64 = n * 733 := Nat.mod_eq_of_lt (by omega)
  unfold decodeSize
  rw [hmod]
  generalize n * 733 / 1000 + 1 = size at h
  rw [Int.bmod_def]
  omega

/-- A size that is not computed right is negative, or less than a third of what is needed. -/
theorem le_of_decodeSize {n : Nat} (h : 2 ^ 31 ≤ n * 733 / 1000 + 1) (hsize : 0 ≤ decodeSize n) :
    3 * 2 ^ 30 + 1 ≤ n := by
  by_contra hlt
  have hmod : n * 733 % 2 ^ 64 = n * 733 := Nat.mod_eq_of_lt (by omega)
  have hle : n * 733 / 1000 + 1 < 2 ^ 32 := by omega
  unfold decodeSize at hsize
  rw [hmod] at hsize
  generalize n * 733 / 1000 + 1 = size at h hsize hle
  rw [Int.bmod_def] at hsize
  omega

theorem pow_lt_of_length {k n : Nat} (hk : 3 * k + 1 ≤ (Nat.digits 58 n).length) : 256 ^ (2 * k) ≤ n := by
  have hne : n ≠ 0 := by
    rintro rfl
    rw [Nat.digits_zero, List.length_nil] at hk
    omega
  have hbase := Nat.base_pow_length_digits_le 58 n (by decide) hne
  have hpow : 58 ^ (3 * k + 1) ≤ 58 * n := (Nat.pow_le_pow_right (by decide) hk).trans hbase
  rw [pow_succ', Nat.mul_le_mul_left_iff (by decide)] at hpow
  calc 256 ^ (2 * k) = (256 ^ 2) ^ k := pow_mul ..
    _ ≤ (58 ^ 3) ^ k := Nat.pow_le_pow_left (by decide) k
    _ = 58 ^ (3 * k) := (pow_mul ..).symm
    _ ≤ n := hpow

/-- The decoder's buffer is as large as the number needs exactly if its size fits into an `int`. -/
theorem fits_of_lt {n : Nat} (hsize : 0 ≤ decodeSize (Nat.digits 58 n).length)
    (hlt : n < 256 ^ (decodeSize (Nat.digits 58 n).length).toNat) :
    (Nat.digits 58 n).length * 733 / 1000 + 1 < 2 ^ 31 := by
  by_contra hge
  have hlen := le_of_decodeSize (not_lt.mp hge) hsize
  obtain ⟨k, hk⟩ : ∃ k, k = 2 ^ 30 := ⟨_, rfl⟩
  have hle := pow_lt_of_length (k := k) (n := n) (by omega)
  have hbound := decodeSize_lt (Nat.digits 58 n).length
  have hpow : 256 ^ (decodeSize (Nat.digits 58 n).length).toNat ≤ 256 ^ (2 * k) :=
    Nat.pow_le_pow_right (by decide) (by omega)
  omega

/-! ### The round trips -/

theorem base58Text_chars (v : List UInt8) : ∀ c ∈ base58Text v, c ≠ 0 ∧ isSpace c = false := by
  have hds : ∀ d ∈ base58Digits v, d < 58 := fun d hd =>
    Nat.digits_lt_base (by decide) (List.mem_reverse.mp hd)
  intro c hc
  refine ⟨?_, isSpace_ones hds c hc⟩
  rcases List.mem_append.mp hc with hc | hc
  · rw [List.eq_of_mem_replicate hc]
    decide
  · obtain ⟨d, hd, rfl⟩ := List.mem_map.mp hc
    exact (base58Char_spec d (hds d hd)).2.2.1

theorem cStr_of_forall (h : ∀ c ∈ s, c ≠ 0) : cStr s = s := by
  rw [cStr, List.takeWhile_eq_self_iff]
  exact fun c hc => decide_eq_true (h c hc)

theorem decodeBase58_ok (hzeroes : ((psz.dropWhile isSpace).takeWhile (· = 49)).length < 2 ^ 31)
    (hsize : ((psz.dropWhile isSpace).dropWhile (· = 49)).length * 733 / 1000 + 1 < 2 ^ 31) :
    ∃ r, decodeBase58 psz = .ok r := by
  have hdecode := decodeSize_of_lt hsize
  have hloop : ∃ r, decodeChars ((psz.dropWhile isSpace).dropWhile (· = 49))
      (List.replicate (decodeSize ((psz.dropWhile isSpace).dropWhile (· = 49)).length).toNat 0) 0 = .ok r := by
    refine decodeChars_ok (Base58State.start _) ?_
    rw [Nat.zero_add, Nat.one_mul, hdecode, Int.toNat_natCast]
    exact pow_58_le _
  obtain ⟨r, hr⟩ := hloop
  unfold decodeBase58
  dsimp only
  rw [if_neg (not_le.mpr hzeroes), if_neg (by rw [hdecode]; exact not_lt.mpr (Int.natCast_nonneg _)), hr]
  exact ⟨_, rfl⟩

/-- **What is written is read**, where the sizes fit. -/
theorem decodeBase58_text (h : Base58Fits v) : decodeBase58 (base58Text v) = .ok (some v) := by
  obtain ⟨hzeroes, hsize⟩ := h
  have hds : ∀ d ∈ base58Digits v, d < 58 := fun d hd => Nat.digits_lt_base (by decide) (List.mem_reverse.mp hd)
  have hhead : (base58Digits v).head? ≠ some 0 := head?_digits 58 _
  have hchars := head?_map_base58Char hds hhead
  have hspace : (base58Text v).dropWhile isSpace = base58Text v :=
    dropWhile_of_forall fun c hc => (base58Text_chars v c hc).2
  have hdecode : decodeSize ((base58Digits v).map base58Char).length =
      ((base58Digits v).length * 733 / 1000 + 1 : Nat) := by rw [List.length_map, decodeSize_of_lt hsize]
  have hfits : (0 + 1) * 58 ^ ((base58Digits v).map base58Char).length ≤
      256 ^ (decodeSize ((base58Digits v).map base58Char).length).toNat := by
    rw [Nat.zero_add, Nat.one_mul, hdecode, Int.toNat_natCast, List.length_map]
    exact pow_58_le _
  obtain ⟨r, hr⟩ := decodeChars_ok (Base58State.start _) hfits
  rw [decodeBase58_eq hspace hchars hzeroes (by rw [hdecode]; exact Int.natCast_nonneg _), hr, Except.map]
  cases r with
  | none =>
    rw [← List.append_nil ((base58Digits v).map base58Char)] at hr
    exact absurd hr (decodeChars_ne_none hds (by simp))
  | some r =>
    obtain ⟨b256, length, rest⟩ := r
    obtain ⟨ds, heq, hds', hrest, hstate⟩ := decodeChars_some (Base58State.start _) hr
    -- no character of the text is a blank, so the loop has read them all
    obtain rfl : rest = [] := by
      cases rest with
      | nil => rfl
      | cons c rest =>
        have hmem : c ∈ base58Text v := List.mem_append_right _ (by rw [heq]; simp)
        have hspace := hrest c rfl
        rw [(base58Text_chars v c hmem).2] at hspace
        cases hspace
    rw [List.append_nil] at heq
    rw [← map_base58Char_inj hds hds' heq] at hstate
    rw [decodeEnd, List.dropWhile_nil, if_neg (not_not.mpr rfl), hstate.strip, base58Digits, feed_digits]
    exact congrArg (fun w => Except.ok (some w)) (base58Bytes_number v)

theorem fits_of_decode (h : decodeBase58 (base58Text v) = .ok (some v)) : Base58Fits v := by
  have hds : ∀ d ∈ base58Digits v, d < 58 := fun d hd => Nat.digits_lt_base (by decide) (List.mem_reverse.mp hd)
  have hhead : (base58Digits v).head? ≠ some 0 := head?_digits 58 _
  obtain ⟨zeroes, ds, rest, htext, hzeroes, hds', hhead', hrest, hsize, hlt, -⟩ := decodeBase58_some h
  rw [dropWhile_of_forall fun c hc => (base58Text_chars v c hc).2] at htext
  obtain rfl : rest = [] := by
    cases rest with
    | nil => rfl
    | cons c rest =>
      have hspace := (base58Text_chars v c (by rw [htext]; simp)).2
      rw [hrest c List.mem_cons_self] at hspace
      cases hspace
  rw [List.append_nil] at htext
  have htake := congrArg (List.takeWhile (· = 49)) htext
  have hdrop := congrArg (List.dropWhile (· = 49)) htext
  rw [base58Text, takeWhile_replicate_append (head?_map_base58Char hds hhead),
    takeWhile_replicate_append (head?_map_base58Char hds' hhead')] at htake
  rw [base58Text, dropWhile_replicate_append (head?_map_base58Char hds hhead),
    dropWhile_replicate_append (head?_map_base58Char hds' hhead')] at hdrop
  have hzero := congrArg List.length htake
  rw [List.length_replicate, List.length_replicate] at hzero
  obtain rfl := map_base58Char_inj hds hds' hdrop
  refine ⟨hzero ▸ hzeroes, ?_⟩
  rw [List.length_nil, Nat.add_zero, base58Digits, List.length_reverse] at hsize hlt
  rw [feed_digits] at hlt
  rw [base58Digits, List.length_reverse]
  exact fits_of_lt hsize hlt

theorem encodeBase58_of_fits (h : Base58Fits v) : encodeBase58 v = .ok (base58Text v) := by
  have hlt : base58Number v < 256 ^ ((base58Digits v).length * 733 / 1000 + 1) := by
    refine lt_of_lt_of_le ?_ (pow_58_le _)
    rw [base58Digits, List.length_reverse]
    exact Nat.lt_base_pow_length_digits (by decide)
  have hlen := (Nat.digits_length_le_iff (by decide) _).mpr hlt
  rw [← length_dropWhile_bytes] at hlen
  have hsize := h.2
  rw [encodeBase58_eq, if_pos ⟨h.1, by omega⟩]

theorem roundTrip_iff (v : List UInt8) :
    (∃ s, encodeBase58 v = .ok s ∧ decodeBase58Str s = .ok (some v)) ↔ Base58Fits v := by
  have hcStr : cStr (base58Text v) = base58Text v := cStr_of_forall fun c hc => (base58Text_chars v c hc).1
  constructor
  · rintro ⟨s, hencode, hdecode⟩
    rw [encodeBase58_eq] at hencode
    split_ifs at hencode
    obtain rfl := Except.ok.inj hencode
    rw [decodeBase58Str, hcStr] at hdecode
    exact fits_of_decode hdecode
  · intro h
    exact ⟨base58Text v, encodeBase58_of_fits h, by rw [decodeBase58Str, hcStr, decodeBase58_text h]⟩

theorem mem_dropWhile_isSpace (hc : c ∈ s) (hspace : isSpace c = false) :
    c ∈ s.dropWhile isSpace := by
  rw [← List.takeWhile_append_dropWhile (p := isSpace) (l := s)] at hc
  rcases List.mem_append.mp hc with hc | hc
  · rw [List.mem_takeWhile_imp hc] at hspace
    cases hspace
  · exact hc

theorem mem_trimSpaces (hc : c ∈ s) (hspace : isSpace c = false) : c ∈ trimSpaces s :=
  List.mem_reverse.mpr
    (mem_dropWhile_isSpace (List.mem_reverse.mpr (mem_dropWhile_isSpace hc hspace)) hspace)

theorem mem_of_mem_trimSpaces (hc : c ∈ trimSpaces s) : c ∈ s :=
  (List.dropWhile_suffix _).subset
    (List.mem_reverse.mp ((List.dropWhile_suffix _).subset (List.mem_reverse.mp hc)))

/-- What is read is written again exactly if there is no zero in the text: the decoder does not see what is behind. -/
theorem encode_decodeStr_iff (h : decodeBase58Str s = .ok (some v)) :
    encodeBase58 v = .ok (trimSpaces s) ↔ 0 ∉ s := by
  have hencode := encodeBase58_of_decode h
  constructor
  · intro htrim hzero
    rw [hencode, Except.ok.injEq] at htrim
    have hmem : (0 : UInt8) ∈ trimSpaces (cStr s) := by
      rw [htrim]
      exact mem_trimSpaces hzero (by decide)
    have hne := List.mem_takeWhile_imp (mem_of_mem_trimSpaces hmem)
    simp at hne
  · intro hzero
    rw [hencode, cStr_of_forall]
    rintro c hc rfl
    exact hzero hc

theorem length_checksum (hash : List UInt8 → Uint256) (v : List UInt8) : (checksum hash v).length = 4 := by
  rw [checksum, List.length_take, length_toLE]
  rfl

theorem verifyChecksum_eq_some {hash : List UInt8 → Uint256} {w : List UInt8} :
    verifyChecksum hash w = some v ↔ w = v ++ checksum hash v := by
  constructor
  · intro h
    unfold verifyChecksum at h
    split_ifs at h with hlen hsum
    obtain rfl := Option.some.inj h
    rw [not_not.mp hsum, List.take_append_drop]
  · rintro rfl
    have hlen : (v ++ checksum hash v).length - 4 = v.length := by
      rw [List.length_append, length_checksum, Nat.add_sub_cancel]
    unfold verifyChecksum
    rw [hlen, List.take_left, List.drop_left, if_neg (by rw [List.length_append, length_checksum]; omega),
      if_neg (not_not.mpr rfl)]

theorem checkRoundTrip_iff (hash : List UInt8 → Uint256) (v : List UInt8) :
    (∃ s, encodeBase58Check hash v = .ok s ∧ decodeBase58CheckStr hash s = .ok (some v)) ↔
      Base58Fits (v ++ checksum hash v) := by
  rw [← roundTrip_iff]
  refine exists_congr fun s => and_congr_right fun _ => ?_
  rw [decodeBase58CheckStr, decodeBase58Check, decodeBase58Str]
  cases decodeBase58 (cStr s) with
  | error e => exact iff_of_false (fun h => (nomatch h)) fun h => (nomatch h)
  | ok r =>
    rw [Except.map, Except.ok.injEq, Except.ok.injEq, Option.bind_eq_some_iff]
    constructor
    · rintro ⟨w, rfl, hw⟩
      rw [verifyChecksum_eq_some.mp hw]
    · rintro rfl
      exact ⟨_, rfl, verifyChecksum_eq_some.mpr rfl⟩

/-- What is written is read back exactly if the sizes fit into an `int`, with a checksum or without.  What is read is
written again exactly if there is no zero within the text.  The encoder's assertion never fails, and the decoder's
does not if the sizes fit. -/
theorem base58_roundTrip_iff (hash : List UInt8 → Uint256) :
    (∀ v, (∃ s, encodeBase58 v = .ok s ∧ decodeBase58Str s = .ok (some v)) ↔ Base58Fits v) ∧
      (∀ s v, decodeBase58Str s = .ok (some v) → (encodeBase58 v = .ok (trimSpaces s) ↔ 0 ∉ s)) ∧
      (∀ v, encodeBase58 v ≠ .error .carry) ∧
      (∀ s, (((cStr s).dropWhile isSpace).takeWhile (· = 49)).length < 2 ^ 31 →
        (((cStr s).dropWhile isSpace).dropWhile (· = 49)).length * 733 / 1000 + 1 < 2 ^ 31 →
        ∃ r, decodeBase58Str s = .ok r) ∧
      ∀ v, (∃ s, encodeBase58Check hash v = .ok s ∧ decodeBase58CheckStr hash s = .ok (some v)) ↔
        Base58Fits (v ++ checksum hash v) := by
  refine ⟨roundTrip_iff, fun s v => encode_decodeStr_iff, ?_, fun s => decodeBase58_ok, checkRoundTrip_iff hash⟩
  intro v h
  rw [encodeBase58_eq] at h
  split_ifs at h
  cases h

/-- "2" and a zero are read as one, which is written without what is behind the zero. -/
theorem base58_zero_within : decodeBase58Str [50, 0, 88] = .ok (some [1]) ∧ encodeBase58 [1] = .ok [50] ∧
    trimSpaces [50, 0, 88] = [50, 0, 88] :=
  ⟨by decide +kernel, by decide +kernel, by decide +kernel⟩

end Sphinx
