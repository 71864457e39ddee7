import Mathlib.Data.Nat.Digits.Lemmas
import Sphinx.Bignum

/-!
# The compact form of a number

`getCompact` keeps three bytes, so decoding what it encodes gives `truncate n`, the number with its
lower bytes cleared (`setCompact_getCompact`).  Truncation never goes up, never reaches zero and keeps
the order, although the number of bytes that it clears depends on the number
(`truncate_le`, `truncate_pos`, `truncate_mono`).
-/

namespace Sphinx.CBigNum

/-! ### The byte string of a positive number -/

/-- The bytes of `n`, highest first, with the sign bit clear and no byte more than that takes. -/
structure IsMpi (n : Nat) (vch : List Nat) : Prop where
  value : Nat.ofDigits 256 vch.reverse = n
  bytes : ∀ x ∈ vch, x < 256
  sign : vch.headD 0 < 128
  short : 256 ^ vch.length ≤ 512 * n

/-- What `BN_bn2mpi` writes is the `mpi` form of the number. -/
theorem isMpi_bn2mpi {n : Nat} (hn : 0 < n) : IsMpi n (bn2mpi n) := by
  have hval : Nat.ofDigits 256 (Nat.digits 256 n) = n := Nat.ofDigits_digits 256 n
  have hbytes : ∀ x ∈ (Nat.digits 256 n).reverse, x < 256 := by
    intro x hx
    exact Nat.digits_lt_base (by decide) (List.mem_reverse.mp hx)
  have hshort : 256 ^ (Nat.digits 256 n).length ≤ 256 * n :=
    Nat.base_pow_length_digits_le 256 n (by decide) hn.ne'
  have hneg : ¬ (n : Int) < 0 := by omega
  rw [← List.reverse_reverse (Nat.digits 256 n)] at hval hshort
  unfold bn2mpi
  rw [Int.natAbs_natCast]
  cases hd : (Nat.digits 256 n).reverse with
  | nil =>
    rw [hd] at hval
    simp at hval
    omega
  | cons b rest =>
    rw [hd] at hval hbytes hshort
    simp only [hneg, if_false]
    by_cases hb : 128 ≤ b
    · -- a zero byte keeps the sign bit clear, and the byte after it is large
      rw [if_pos hb]
      have hrev := Nat.ofDigits_reverse_cons (b := 256) rest b
      have hpow : 256 ^ rest.length * 128 ≤ 256 ^ rest.length * b := Nat.mul_le_mul_left _ hb
      refine ⟨?_, ?_, by simp, ?_⟩
      · rw [Nat.ofDigits_reverse_zero_cons]
        exact hval
      · intro x hx
        rcases List.mem_cons.mp hx with rfl | hx
        · decide
        · exact hbytes x hx
      · rw [List.length_cons, List.length_cons, pow_succ, pow_succ]
        omega
    · rw [if_neg hb]
      refine ⟨hval, hbytes, by simpa using hb, ?_⟩
      rw [List.length_reverse] at hshort
      omega

namespace IsMpi

variable {n m : Nat} {vch wch : List Nat}

theorem ne_nil (h : IsMpi n vch) : vch ≠ [] := by
  rintro rfl
  have hv := h.value
  have hs := h.short
  simp at hv hs
  omega

theorem lt_pow (h : IsMpi n vch) : 2 * n < 256 ^ vch.length := by
  cases vch with
  | nil => exact absurd rfl h.ne_nil
  | cons b rest =>
    have hv := h.value
    rw [Nat.ofDigits_reverse_cons] at hv
    have hlow : Nat.ofDigits 256 rest.reverse < 256 ^ rest.reverse.length :=
      Nat.ofDigits_lt_base_pow_length (by decide)
        (fun x hx => h.bytes x (List.mem_cons_of_mem _ (List.mem_reverse.mp hx)))
    have hb : b + 1 ≤ 128 := h.sign
    have hpow : 256 ^ rest.length * (b + 1) ≤ 256 ^ rest.length * 128 := Nat.mul_le_mul_left _ hb
    rw [List.length_reverse] at hlow
    rw [List.length_cons, pow_succ]
    rw [Nat.mul_add] at hpow
    omega

theorem length_le (h : IsMpi n vch) (h' : IsMpi m wch) (hnm : n ≤ m) :
    vch.length ≤ wch.length := by
  by_contra hlt
  have hpow : 256 ^ (wch.length + 1) ≤ 256 ^ vch.length :=
    Nat.pow_le_pow_right (by decide) (by omega)
  have hm := h'.lt_pow
  have hn := h.short
  rw [pow_succ] at hpow
  omega

end IsMpi

/-! ### Decoding -/

/-- The number of bytes of `n` that its compact form does not keep. -/
def lostBytes (n : Nat) : Nat := (bn2mpi n).length - 3

/-- `n` with the bytes cleared that its compact form does not keep. -/
def truncate (n : Nat) : Nat := n / 256 ^ lostBytes n * 256 ^ lostBytes n

theorem mpi2bn_cons {b : Nat} (hb : b < 128) (rest : List Nat) :
    mpi2bn (b :: rest) = (Nat.ofDigits 256 (b :: rest).reverse : Nat) := by
  unfold mpi2bn
  simp only [Nat.mod_eq_of_lt hb, if_neg (Nat.not_le.mpr hb)]
  rw [Nat.coe_ofDigits]
  rfl

/-- The three bytes that the compact form of `n` keeps, with zeros behind a shorter string. -/
def mantissa (n : Nat) : Nat := n * 256 ^ (3 - (bn2mpi n).length) / 256 ^ lostBytes n

/-- `SetCompact` by a shift of the mantissa. -/
theorem setCompact_eq {m : Nat} (s : Nat) (hm : m < 2 ^ 23) :
    setCompact (s * 2 ^ 24 + m) = (m * 256 ^ (s - 3) / 256 ^ (3 - s) : Nat) := by
  have h1 : (s * 2 ^ 24 + m) / 2 ^ 24 = s := by omega
  have h2 : (s * 2 ^ 24 + m) / 2 ^ 16 % 256 = m / 2 ^ 16 := by omega
  have h3 : (s * 2 ^ 24 + m) / 2 ^ 8 % 256 = m / 2 ^ 8 % 256 := by omega
  have h4 : (s * 2 ^ 24 + m) % 256 = m % 256 := by omega
  have ha : m / 2 ^ 16 < 128 := by omega
  unfold setCompact
  simp only [h1, h2, h3, h4]
  rcases s with _ | _ | _ | k
  · show (0 : Int) = (m * 256 ^ 0 / 256 ^ 3 : Nat)
    rw [Nat.div_eq_of_lt (by omega)]
    rfl
  · show mpi2bn (m / 2 ^ 16 :: []) = _
    rw [mpi2bn_cons ha]
    simp
  · show mpi2bn (m / 2 ^ 16 :: [m / 2 ^ 8 % 256]) = _
    rw [mpi2bn_cons ha]
    simp [Nat.ofDigits_cons]
    omega
  · have hk : k + 1 + 1 + 1 - 3 = k := by omega
    rw [hk, List.take_of_length_le (by simp)]
    show mpi2bn (m / 2 ^ 16 :: (m / 2 ^ 8 % 256 :: m % 256 :: List.replicate k 0)) = _
    have hbytes : Nat.ofDigits 256 [m % 256, m / 2 ^ 8 % 256, m / 2 ^ 16] = m := by
      simp only [Nat.ofDigits_cons, Nat.ofDigits_nil]
      omega
    rw [mpi2bn_cons ha]
    have hrev : (m / 2 ^ 16 :: m / 2 ^ 8 % 256 :: m % 256 :: List.replicate k 0).reverse =
        List.replicate k 0 ++ [m % 256, m / 2 ^ 8 % 256, m / 2 ^ 16] := by simp
    rw [hrev, Nat.ofDigits_append, Nat.ofDigits_replicate_zero, List.length_replicate, hbytes]
    simp [Nat.mul_comm]

/-- `GetCompact` as size and mantissa. -/
theorem getCompact_eq {n : Nat} (hn : 0 < n) (hlen : (bn2mpi n).length < 256) :
    getCompact n = (bn2mpi n).length * 2 ^ 24 + mantissa n := by
  have hmpi := isMpi_bn2mpi hn
  unfold mantissa lostBytes getCompact
  generalize bn2mpi n = vch at hmpi hlen ⊢
  have hval := hmpi.value
  have hbytes := hmpi.bytes
  have hsign := hmpi.sign
  rcases vch with _ | ⟨a, _ | ⟨b, _ | ⟨c, rest⟩⟩⟩
  · exact absurd rfl hmpi.ne_nil
  -- one byte and two bytes: nothing is lost
  · simp at hval hsign ⊢
    omega
  · have hb : b < 256 := hbytes b (by simp)
    simp [Nat.ofDigits_cons] at hval hsign ⊢
    omega
  -- three bytes and more: all but the first three are divided away
  · have ha : a < 128 := hsign
    have hb : b < 256 := hbytes b (by simp)
    have hc : c < 256 := hbytes c (by simp)
    have hlow : Nat.ofDigits 256 rest.reverse < 256 ^ rest.length := by
      have h := Nat.ofDigits_lt_base_pow_length (b := 256) (l := rest.reverse) (by decide)
        (fun x hx => hbytes x (by simp [List.mem_reverse.mp hx]))
      rwa [List.length_reverse] at h
    have hn' : n = Nat.ofDigits 256 rest.reverse + 256 ^ rest.length * (c + 256 * (b + 256 * a)) := by
      rw [← hval, List.reverse_cons, List.reverse_cons, List.reverse_cons, List.append_assoc,
        List.append_assoc, Nat.ofDigits_append, List.length_reverse]
      simp [Nat.ofDigits_cons]
    have hdiv : n / 256 ^ rest.length = c + 256 * (b + 256 * a) := by
      rw [hn', Nat.add_mul_div_left _ _ (Nat.pow_pos (by decide)), Nat.div_eq_of_lt hlow, zero_add]
    have hlen' : rest.length + 3 < 256 := by simpa using hlen
    have hzero : 3 - (rest.length + 1 + 1 + 1) = 0 := by omega
    have hlost : rest.length + 1 + 1 + 1 - 3 = rest.length := by omega
    simp only [List.length_cons, List.getD_cons_zero, List.getD_cons_succ, hzero, hlost, pow_zero, mul_one,
      hdiv]
    omega

theorem mantissa_lt {n : Nat} (hn : 0 < n) : mantissa n < 2 ^ 23 := by
  have hlt := (isMpi_bn2mpi hn).lt_pow
  unfold mantissa lostBytes
  rw [Nat.div_lt_iff_lt_mul (Nat.pow_pos (by decide))]
  generalize (bn2mpi n).length = len at hlt ⊢
  rcases len with _ | _ | _ | k
  · simp at hlt
    omega
  · simp at hlt ⊢
    omega
  · simp at hlt ⊢
    omega
  · rw [pow_add] at hlt
    simp
    omega

theorem mantissa_mul (n : Nat) :
    mantissa n * 256 ^ ((bn2mpi n).length - 3) / 256 ^ (3 - (bn2mpi n).length) = truncate n := by
  unfold mantissa truncate lostBytes
  rcases Nat.le_total 3 (bn2mpi n).length with h | h
  · simp [Nat.sub_eq_zero_of_le h]
  · simp [Nat.sub_eq_zero_of_le h]

/-- The round trip keeps the upper bytes. -/
theorem setCompact_getCompact {n : Nat} (hn : 0 < n) (hlen : (bn2mpi n).length < 256) :
    setCompact (getCompact n) = (truncate n : Nat) := by
  rw [getCompact_eq hn hlen, setCompact_eq _ (mantissa_lt hn), mantissa_mul]

/-! ### Truncation -/

theorem truncate_le (n : Nat) : truncate n ≤ n := Nat.div_mul_le_self n _

theorem pow_length_bn2mpi {n : Nat} (h : 3 ≤ (bn2mpi n).length) :
    256 ^ (bn2mpi n).length = 256 ^ lostBytes n * 256 ^ 3 := by
  rw [← pow_add, lostBytes, Nat.sub_add_cancel h]

/-- The first byte that is kept, or the second when the first only holds the sign, is not zero. -/
theorem two_pow_le_kept {n : Nat} (hn : 0 < n) (h : 3 ≤ (bn2mpi n).length) :
    2 ^ 15 ≤ n / 256 ^ lostBytes n := by
  have hshort := (isMpi_bn2mpi hn).short
  have hpow := pow_length_bn2mpi h
  rw [Nat.le_div_iff_mul_le (Nat.pow_pos (by decide))]
  omega

theorem lostBytes_eq_zero {n : Nat} (h : ¬ 3 ≤ (bn2mpi n).length) : lostBytes n = 0 :=
  Nat.sub_eq_zero_of_le (Nat.le_of_not_le h)

theorem truncate_pos {n : Nat} (hn : 0 < n) : 0 < truncate n := by
  apply Nat.mul_pos _ (Nat.pow_pos (by decide))
  by_cases h : 3 ≤ (bn2mpi n).length
  · exact Nat.lt_of_lt_of_le (by decide) (two_pow_le_kept hn h)
  · rwa [lostBytes_eq_zero h, pow_zero, Nat.div_one]

theorem truncate_mono {n m : Nat} (hn : 0 < n) (hnm : n ≤ m) : truncate n ≤ truncate m := by
  have hm := Nat.lt_of_lt_of_le hn hnm
  have hmpi := isMpi_bn2mpi hn
  have hlen := hmpi.length_le (isMpi_bn2mpi hm) hnm
  rcases Nat.eq_or_lt_of_le hlen with heq | hlt
  · -- the same bytes are cleared
    have hlost : lostBytes n = lostBytes m := by rw [lostBytes, lostBytes, heq]
    unfold truncate
    rw [hlost]
    exact Nat.mul_le_mul_right _ (Nat.div_le_div_right hnm)
  · -- `m` has a byte more, and what it keeps is already above `n`
    apply Nat.le_trans (truncate_le n)
    have hup := hmpi.lt_pow
    unfold truncate
    by_cases h3 : 3 ≤ (bn2mpi m).length
    · have hpow := pow_length_bn2mpi h3
      have hstep : 256 ^ ((bn2mpi n).length + 1) ≤ 256 ^ (bn2mpi m).length :=
        Nat.pow_le_pow_right (by decide) hlt
      rw [pow_succ] at hstep
      have hmul := Nat.mul_le_mul_right (256 ^ lostBytes m) (two_pow_le_kept hm h3)
      omega
    · rw [lostBytes_eq_zero h3, pow_zero, Nat.div_one, Nat.mul_one]
      exact hnm

/-! ### Small numbers -/

theorem length_bn2mpi_le {n : Nat} (hn : 0 < n) (hlt : n < 2 ^ 256) : (bn2mpi n).length ≤ 33 := by
  by_contra h
  have hshort := (isMpi_bn2mpi hn).short
  have hpow : 256 ^ 34 ≤ 256 ^ (bn2mpi n).length := Nat.pow_le_pow_right (by decide) (by omega)
  omega

theorem setCompact_getCompact_of_lt {n : Nat} (hn : 0 < n) (hlt : n < 2 ^ 256) :
    setCompact (getCompact n) = (truncate n : Nat) :=
  setCompact_getCompact hn (by have := length_bn2mpi_le hn hlt; omega)

theorem getuint256_eq_mod {n : Nat} (hn : 0 < n) : getuint256 n = n % 2 ^ 256 := by
  have hmpi := isMpi_bn2mpi hn
  unfold getuint256
  cases hvch : bn2mpi n with
  | nil => exact absurd hvch hmpi.ne_nil
  | cons b rest =>
    rw [hvch] at hmpi
    have hb : b < 128 := hmpi.sign
    have htake := Nat.ofDigits_mod_pow_eq_ofDigits_take 32 (by decide : 0 < 256) (b :: rest).reverse
      (fun x hx => hmpi.bytes x (List.mem_reverse.mp hx))
    simp only [Nat.mod_eq_of_lt hb]
    rw [← htake, hmpi.value]
    rfl

end Sphinx.CBigNum
