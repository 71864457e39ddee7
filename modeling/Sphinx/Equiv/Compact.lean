import Sphinx.Equiv.Bignum

/-!
# Two codecs of the compact form

`uint256` shifts where `CBigNum` cuts the byte string of OpenSSL, and `setint64` and `setuint256` write such a
string themselves.  The size of the string decides everything: it is the only one between two bounds
(`length_bn2mpi_eq`), and `GetCompact` of `uint256` counts it (`size_eq`).
-/

namespace Sphinx

namespace CBigNum

variable {n m : Nat}

/-! ### The size of the compact form -/

theorem length_bn2mpi_eq (hn : 0 < n) {k : Nat} (hlow : 256 ^ k ≤ 512 * n) (hup : 2 * n < 256 ^ k) :
    (bn2mpi n).length = k := by
  have hmpi := isMpi_bn2mpi hn
  have hshort := hmpi.short
  have hlt := hmpi.lt_pow
  apply Nat.le_antisymm
  · by_contra h
    have hpow : 256 ^ (k + 1) ≤ 256 ^ (bn2mpi n).length := Nat.pow_le_pow_right (by decide) (by omega)
    rw [pow_succ] at hpow
    omega
  · by_contra h
    have hpow : 256 ^ ((bn2mpi n).length + 1) ≤ 256 ^ k := Nat.pow_le_pow_right (by decide) (by omega)
    rw [pow_succ] at hpow
    omega

theorem sub_truncate_mul_le (hn : 0 < n) : (n - truncate n) * 2 ^ 15 ≤ n := by
  have hmod : n - truncate n = n % 256 ^ lostBytes n := by rw [truncate, Nat.mod_eq_sub_div_mul]
  rw [hmod]
  by_cases h : 3 ≤ (bn2mpi n).length
  · have hlt : n % 256 ^ lostBytes n < 256 ^ lostBytes n := Nat.mod_lt _ (Nat.pow_pos (by decide))
    calc n % 256 ^ lostBytes n * 2 ^ 15 ≤ 256 ^ lostBytes n * 2 ^ 15 := Nat.mul_le_mul_right _ hlt.le
      _ ≤ 256 ^ lostBytes n * (n / 256 ^ lostBytes n) := Nat.mul_le_mul_left _ (two_pow_le_kept hn h)
      _ ≤ n := Nat.mul_div_le n _
  · rw [lostBytes_eq_zero h, pow_zero, Nat.mod_one, Nat.zero_mul]
    exact Nat.zero_le n

theorem length_bn2mpi_truncate (hn : 0 < n) : (bn2mpi (truncate n)).length = (bn2mpi n).length := by
  have hmpi := isMpi_bn2mpi hn
  apply length_bn2mpi_eq (truncate_pos hn)
  · by_cases h : 3 ≤ (bn2mpi n).length
    · have hpow := pow_length_bn2mpi h
      have hmul := Nat.mul_le_mul_right (256 ^ lostBytes n) (two_pow_le_kept hn h)
      unfold truncate
      omega
    · have hshort := hmpi.short
      simpa [truncate, lostBytes_eq_zero h] using hshort
  · exact Nat.lt_of_le_of_lt (Nat.mul_le_mul_left 2 (truncate_le n)) hmpi.lt_pow

theorem mantissa_pos (hn : 0 < n) : 0 < mantissa n := by
  apply Nat.pos_of_ne_zero
  intro hzero
  have hpos := truncate_pos hn
  rw [← mantissa_mul, hzero, Nat.zero_mul, Nat.zero_div] at hpos
  exact Nat.lt_irrefl 0 hpos

theorem getCompact_truncate (hn : 0 < n) (hlen : (bn2mpi n).length < 256) :
    getCompact (truncate n) = getCompact n := by
  have hsame := length_bn2mpi_truncate hn
  rw [getCompact_eq (truncate_pos hn) (by rwa [hsame]), getCompact_eq hn hlen, hsame]
  congr 1
  unfold mantissa
  rw [lostBytes, hsame, ← lostBytes]
  rcases Nat.le_total 3 (bn2mpi n).length with h | h
  · have hpos : 0 < 256 ^ lostBytes n := Nat.pow_pos (by decide)
    simp [Nat.sub_eq_zero_of_le h, truncate, Nat.mul_div_cancel _ hpos]
  · have hzero : lostBytes n = 0 := Nat.sub_eq_zero_of_le h
    simp [hzero, truncate]

theorem getCompact_mono (hnm : n ≤ m) (hm : m < 2 ^ 256) : getCompact n ≤ getCompact m := by
  rcases Nat.eq_zero_or_pos n with rfl | hn
  · exact Nat.zero_le _
  have hm' := Nat.lt_of_lt_of_le hn hnm
  have hlen := (isMpi_bn2mpi hn).length_le (isMpi_bn2mpi hm') hnm
  have hmax := length_bn2mpi_le hm' hm
  rw [getCompact_eq hn (by omega), getCompact_eq hm' (by omega)]
  rcases Nat.eq_or_lt_of_le hlen with heq | hlt
  · apply Nat.add_le_add (by rw [heq])
    unfold mantissa lostBytes
    rw [heq]
    exact Nat.div_le_div_right (Nat.mul_le_mul_right _ hnm)
  · have := mantissa_lt hn
    omega

/-! ### The byte strings of `setint64` and `setuint256` -/

theorem foldl_putByte_false (fNegative : Bool) (cs out : List Nat) :
    cs.foldl (putByte fNegative) (false, out) = (false, out ++ cs) := by
  induction cs generalizing out with
  | nil => simp
  | cons c cs ih => simp [putByte, ih]

theorem mpi2bn_neg_cons {b : Nat} (hb : b < 128) (rest : List Nat) :
    mpi2bn ((b + 128) :: rest) = -(Nat.ofDigits 256 (b :: rest).reverse : Nat) := by
  have hmod : (b + 128) % 128 = b := by omega
  have hhigh : 128 ≤ b + 128 := by omega
  unfold mpi2bn
  simp only [hmod, if_pos hhigh]
  rw [Nat.coe_ofDigits]
  rfl

theorem mpi2bn_foldl_putByte (fNegative : Bool) {cs : List Nat} (hcs : ∀ c ∈ cs, c < 256) :
    mpi2bn (cs.foldl (putByte fNegative) (true, [])).2 =
      (if fNegative then -1 else 1) * (Nat.ofDigits 256 cs.reverse : Nat) := by
  induction cs with
  | nil => simp [mpi2bn]
  | cons c cs ih =>
    have hc : c < 256 := hcs c (by simp)
    rw [List.foldl_cons]
    by_cases hzero : c = 0
    · rw [hzero, Nat.ofDigits_reverse_zero_cons]
      exact ih fun c h => hcs c (List.mem_cons_of_mem _ h)
    · -- the first byte that is not zero carries the sign, or the byte before it does
      by_cases hhigh : 128 ≤ c
      · have hput : putByte fNegative (true, []) c = (false, [if fNegative then 128 else 0, c]) := by
          simp [putByte, hzero, hhigh]
        rw [hput, foldl_putByte_false]
        cases fNegative
        · show mpi2bn (0 :: c :: cs) = _
          rw [mpi2bn_cons (by decide), Nat.ofDigits_reverse_zero_cons]
          simp
        · show mpi2bn ((0 + 128) :: c :: cs) = _
          rw [mpi2bn_neg_cons (by decide), Nat.ofDigits_reverse_zero_cons]
          simp
      · have hput : putByte fNegative (true, []) c = (false, [if fNegative then c + 128 else c]) := by
          simp [putByte, hzero, hhigh]
        rw [hput, foldl_putByte_false]
        cases fNegative
        · show mpi2bn (c :: cs) = _
          rw [mpi2bn_cons (by omega)]
          simp
        · show mpi2bn ((c + 128) :: cs) = _
          rw [mpi2bn_neg_cons (by omega)]
          simp

theorem ofDigits_bytes (n k : Nat) :
    Nat.ofDigits 256 ((List.range k).map fun i => n / 256 ^ i % 256) = n % 256 ^ k := by
  induction k with
  | zero => simp [Nat.mod_one]
  | succ k ih =>
    rw [List.range_succ, List.map_append, Nat.ofDigits_append, ih, Nat.mod_pow_succ]
    simp

theorem setuint256_eq (hn : n < 2 ^ 256) : setuint256 n = n := by
  unfold setuint256
  rw [mpi2bn_foldl_putByte]
  · rw [List.reverse_reverse, ofDigits_bytes, Nat.mod_eq_of_lt (by omega)]
    simp
  · intro c hc
    obtain ⟨i, -, rfl⟩ := List.mem_map.mp (List.mem_reverse.mp hc)
    exact Nat.mod_lt _ (by decide)

/-- The bytes come off the top of an `uint64_t`. -/
theorem setint64Loop_eq (fNegative : Bool) {n : Nat} (hn : n < 2 ^ 64) :
    mpi2bn (setint64Loop fNegative 8 n (true, [])).2 = (if fNegative then -1 else 1) * n := by
  have hloop : setint64Loop fNegative 8 n (true, []) =
      ((List.range 8).map fun i => n / 256 ^ i % 256).reverse.foldl (putByte fNegative) (true, []) := by
    have hrange : List.range 8 = [0, 1, 2, 3, 4, 5, 6, 7] := rfl
    rw [hrange]
    simp only [setint64Loop, List.map_cons, List.map_nil, List.reverse_cons, List.reverse_nil, List.nil_append,
      List.cons_append, List.foldl_cons, List.foldl_nil]
    iterate 8 refine congrArg₂ (putByte fNegative) ?_ (by omega)
    rfl
  rw [hloop, mpi2bn_foldl_putByte, List.reverse_reverse, ofDigits_bytes, Nat.mod_eq_of_lt (by omega)]
  intro c hc
  obtain ⟨i, -, rfl⟩ := List.mem_map.mp (List.mem_reverse.mp hc)
  exact Nat.mod_lt _ (by decide)

theorem setint64_eq {sn : Int} (hlow : -2 ^ 63 ≤ sn) (hup : sn < 2 ^ 63) : setint64 sn = sn := by
  unfold setint64
  split_ifs with hneg
  · rw [Nat.mod_eq_of_lt (by omega), setint64Loop_eq _ (by omega)]
    simp
    omega
  · rw [setint64Loop_eq _ (by omega)]
    simp
    omega

end CBigNum

namespace Uint256

variable {x c : Nat}

/-! ### The codec of `uint256` -/

/-- The bytes that `GetCompact` counts. -/
theorem size_bounds (hpos : 0 < x) (hlt : x < 2 ^ 256) :
    ∃ s, (Nat.size x + 7) / 8 = s ∧ 0 < s ∧ s ≤ 32 ∧ 256 ^ s ≤ 256 * x ∧ x < 256 ^ s := by
  refine ⟨_, rfl, ?_⟩
  have hsize := Nat.size_pos.mpr hpos
  have hmax := Nat.size_le.mpr hlt
  have hpow : ∀ k, 256 ^ k = 2 ^ (8 * k) := fun k => by norm_num [pow_mul]
  generalize hs : (Nat.size x + 7) / 8 = s
  obtain ⟨k, rfl⟩ : ∃ k, s = k + 1 := ⟨s - 1, by omega⟩
  refine ⟨by omega, by omega, ?_, ?_⟩
  · have hlow : 2 ^ (8 * k) ≤ x := Nat.lt_size.mp (by omega)
    rw [pow_succ, hpow]
    omega
  · rw [hpow]
    exact Nat.size_le.mp (by omega)

theorem getCompact_eq (hpos : 0 < x) (hlt : x < 2 ^ 256) (fNegative : Bool) :
    getCompact x fNegative = some (CBigNum.getCompact x + if fNegative then 2 ^ 23 else 0) := by
  obtain ⟨s, hs, hs0, hs32, hlow, hup⟩ := size_bounds hpos hlt
  -- the word before the sign bit is looked at
  obtain ⟨t, ht⟩ : ∃ t, x * 256 ^ (3 - s) / 256 ^ (s - 3) = t := ⟨_, rfl⟩
  have hword : (if s ≤ 3 then x % 2 ^ 64 * 2 ^ (8 * (3 - s)) % 2 ^ 64 % 2 ^ 32
      else x / 2 ^ (8 * (s - 3)) % 2 ^ 64 % 2 ^ 32) = t ∧ t < 2 ^ 24 ∧ (2 ^ 23 ≤ t ↔ 256 ^ s ≤ 2 * x) := by
    rcases Nat.lt_or_ge 3 s with h3 | h3
    · obtain ⟨k, rfl⟩ : ∃ k, s = k + 3 := ⟨s - 3, by omega⟩
      have hzero : 3 - (k + 3) = 0 := by omega
      have hpow : 2 ^ (8 * k) = 256 ^ k := by norm_num [pow_mul]
      rw [pow_add] at hup ⊢
      rw [hzero, pow_zero, Nat.mul_one, Nat.add_sub_cancel] at ht
      rw [if_neg (by omega), Nat.add_sub_cancel, hpow, ht]
      have htlt : t < 2 ^ 24 := by
        rw [← ht, Nat.div_lt_iff_lt_mul (Nat.pow_pos (by decide))]
        omega
      refine ⟨by omega, htlt, ?_⟩
      rw [← ht, Nat.le_div_iff_mul_le (Nat.pow_pos (by decide))]
      omega
    · interval_cases s
      · simp at ht hup ⊢
        omega
      · simp at ht hup ⊢
        omega
      · simp at ht hup ⊢
        omega
  obtain ⟨hword, htlt, hsign⟩ := hword
  have hbit : t.testBit 23 = decide (2 ^ 23 ≤ t) := by
    rw [Nat.testBit_eq_decide_div_mod_eq, decide_eq_decide]
    omega
  -- the correction of the mantissa is the zero byte that keeps the sign bit of the string clear
  have hfields : (if t.testBit 23 then (t / 2 ^ 8, s + 1) else (t, s)) =
      (CBigNum.mantissa x, (CBigNum.bn2mpi x).length) := by
    rw [hbit]
    unfold CBigNum.mantissa CBigNum.lostBytes
    by_cases h : 2 ^ 23 ≤ t
    · have hhigh := hsign.mp h
      have hlen : (CBigNum.bn2mpi x).length = s + 1 := by
        apply CBigNum.length_bn2mpi_eq hpos
        · rw [pow_succ]
          omega
        · rw [pow_succ]
          omega
      rw [if_pos (decide_eq_true h), hlen, ← ht, Prod.mk.injEq]
      refine ⟨?_, rfl⟩
      rcases Nat.lt_or_ge s 3 with h3 | h3
      · interval_cases s
        · simp
          omega
        · simp
      · have hnext : s + 1 - 3 = s - 3 + 1 := by omega
        rw [Nat.sub_eq_zero_of_le h3, Nat.sub_eq_zero_of_le (by omega : 3 ≤ s + 1), hnext, pow_succ,
          Nat.div_div_eq_div_mul]
        rfl
    · have hlen : (CBigNum.bn2mpi x).length = s :=
        CBigNum.length_bn2mpi_eq hpos (by omega) (by omega)
      rw [if_neg (by simpa using h), hlen, ht]
  have hm := CBigNum.mantissa_lt hpos
  have hm0 := CBigNum.mantissa_pos hpos
  have hlen := CBigNum.length_bn2mpi_le hpos hlt
  rw [CBigNum.getCompact_eq hpos (by omega)]
  unfold getCompact
  rw [hs]
  dsimp only
  rw [hword, hfields]
  generalize CBigNum.mantissa x = m at hm hm0 ⊢
  generalize (CBigNum.bn2mpi x).length = len at hlen ⊢
  have hmod : m % 2 ^ 23 ≠ 0 := by omega
  have hlen256 : len < 256 := by omega
  dsimp only
  rw [guard, if_pos hm, guard, if_pos hlen256, Nat.add_comm m]
  simp only [hmod, ne_eq, not_false_eq_true, and_true]
  rfl

theorem value_setCompact (c : Nat) : (setCompact c).value =
    c % 2 ^ 23 * 256 ^ (c / 2 ^ 24 - 3) / 256 ^ (3 - c / 2 ^ 24) % 2 ^ 256 := by
  have hpow : ∀ k, 2 ^ (8 * k) = 256 ^ k := fun k => by norm_num [pow_mul]
  unfold setCompact
  simp only [hpow]
  split_ifs with h3
  · rw [Nat.sub_eq_zero_of_le h3, pow_zero, Nat.mul_one]
    have hle := Nat.div_le_self (c % 2 ^ 23) (256 ^ (3 - c / 2 ^ 24))
    rw [Nat.mod_eq_of_lt (a := _ / _) (by omega)]
  · rw [Nat.sub_eq_zero_of_le (Nat.le_of_not_le h3), pow_zero, Nat.div_one]

theorem lt_of_fOverflow (h : (setCompact c).fOverflow = false) :
    c % 2 ^ 23 * 256 ^ (c / 2 ^ 24 - 3) / 256 ^ (3 - c / 2 ^ 24) < 2 ^ 256 := by
  have hm : c % 2 ^ 23 < 2 ^ 23 := Nat.mod_lt _ (by decide)
  unfold setCompact at h
  generalize c / 2 ^ 24 = s at h ⊢
  generalize c % 2 ^ 23 = m at h hm ⊢
  -- a mantissa below `256 ^ a` at a size up to `35 - a`
  have hfit : ∀ {a b : Nat}, m < 2 ^ a → s ≤ b + 3 → a + 8 * b ≤ 256 →
      m * 256 ^ (s - 3) / 256 ^ (3 - s) < 2 ^ 256 := by
    intro a b hma hsb hab
    apply Nat.lt_of_le_of_lt (Nat.div_le_self _ _)
    calc m * 256 ^ (s - 3) < 2 ^ a * 256 ^ (s - 3) := Nat.mul_lt_mul_of_pos_right hma (Nat.pow_pos (by decide))
      _ ≤ 2 ^ a * 256 ^ b := Nat.mul_le_mul_left _ (Nat.pow_le_pow_right (by decide) (by omega))
      _ = 2 ^ (a + 8 * b) := by rw [pow_add, pow_mul]; norm_num
      _ ≤ 2 ^ 256 := Nat.pow_le_pow_right (by decide) hab
  rcases Nat.lt_or_ge 32 s with h32 | h32
  · simp only [if_neg (by omega : ¬ s ≤ 3), decide_eq_false_iff_not] at h
    rcases (by omega : m = 0 ∨ s = 33 ∧ m < 2 ^ 16 ∨ s = 34 ∧ m < 2 ^ 8) with hm | ⟨hs, hm⟩ | ⟨hs, hm⟩
    · simp [hm]
    · exact hfit hm (b := 30) (by omega) (by decide)
    · exact hfit hm (b := 31) (by omega) (by decide)
  · exact hfit hm (b := 29) (by omega) (by decide)

theorem fNegative_setCompact (h : (setCompact c).value ≠ 0) :
    (setCompact c).fNegative = c.testBit 23 := by
  have hword : (if c / 2 ^ 24 ≤ 3 then c % 2 ^ 23 / 2 ^ (8 * (3 - c / 2 ^ 24)) else c % 2 ^ 23) ≠ 0 := by
    intro hzero
    apply h
    unfold setCompact
    simp only [hzero, Nat.zero_mul, Nat.zero_mod, ite_self]
  unfold setCompact
  simp only [ne_eq, hword, not_false_eq_true, true_and, Bool.decide_eq_true]

/-- What difficulty relies on of the two codecs and of the conversions between the numbers. -/
structure CodecsAgree : Prop where
  set : ∀ c, c.testBit 23 = false → (setCompact c).fOverflow = false →
    CBigNum.setCompact c = ((setCompact c).value : Nat)
  get : ∀ x : Nat, x < 2 ^ 256 → getCompact x false = some (CBigNum.getCompact (CBigNum.setuint256 x))
  word : ∀ x : Nat, x < 2 ^ 256 → ∀ c, getCompact x false = some c →
    CBigNum.setCompact c = ((setCompact c).value : Nat)
  mono : ∀ x y : Nat, x ≤ y → y < 2 ^ 256 →
    ∃ c d, getCompact x false = some c ∧ getCompact y false = some d ∧ c ≤ d
  image : ∀ x : Nat, x < 2 ^ 256 → ∀ fNegative c, getCompact x fNegative = some c →
    getCompact (setCompact c).value (setCompact c).fNegative = some c
  precise : ∀ x : Nat, x < 2 ^ 256 → ∀ c, getCompact x false = some c →
    (setCompact c).value ≤ x ∧ (x - (setCompact c).value) * 2 ^ 15 ≤ x
  int64 : ∀ sn : Int, -2 ^ 63 ≤ sn → sn < 2 ^ 63 → CBigNum.setint64 sn = sn
  uint256 : ∀ n : Nat, n < 2 ^ 256 → CBigNum.setuint256 n = n ∧ CBigNum.getuint256 (CBigNum.setuint256 n) = n

theorem setCompact_getCompact (hpos : 0 < x) (hlt : x < 2 ^ 256) {fNegative : Bool}
    (h : getCompact x fNegative = some c) :
    (setCompact c).value = CBigNum.truncate x ∧ (setCompact c).fNegative = fNegative := by
  have hm := CBigNum.mantissa_lt hpos
  have hlen := CBigNum.length_bn2mpi_le hpos hlt
  have hle := CBigNum.truncate_le x
  rw [getCompact_eq hpos hlt, CBigNum.getCompact_eq hpos (by omega), Option.some.injEq] at h
  have hsize : c / 2 ^ 24 = (CBigNum.bn2mpi x).length := by
    rw [← h]
    split <;> omega
  have hword : c % 2 ^ 23 = CBigNum.mantissa x := by
    rw [← h]
    split <;> omega
  have hsign : c.testBit 23 = fNegative := by
    rw [Nat.testBit_eq_decide_div_mod_eq, ← h]
    cases fNegative
    · simp
      omega
    · simp
      omega
  have hvalue : (setCompact c).value = CBigNum.truncate x := by
    rw [value_setCompact, hsize, hword, CBigNum.mantissa_mul, Nat.mod_eq_of_lt (by omega)]
  refine ⟨hvalue, ?_⟩
  rw [fNegative_setCompact, hsign]
  rw [hvalue]
  exact (CBigNum.truncate_pos hpos).ne'

theorem getCompact_zero (fNegative : Bool) : getCompact 0 fNegative = some 0 := by
  cases fNegative <;> rfl

theorem setCompact_zero : setCompact 0 = ⟨0, false, false⟩ := by
  simp [setCompact]

theorem getCompact_same (hlt : x < 2 ^ 256) : getCompact x false = some (CBigNum.getCompact x) := by
  rcases Nat.eq_zero_or_pos x with rfl | hpos
  · simp [getCompact_zero, CBigNum.getCompact, CBigNum.bn2mpi]
  · rw [getCompact_eq hpos hlt, if_neg Bool.false_ne_true, Nat.add_zero]

/-- **Both codecs agree**, and with the `mpi` format. -/
theorem codecsAgree : CodecsAgree where
  set c hsign hfits := by
    have hlt := lt_of_fOverflow hfits
    have hc : c = c / 2 ^ 24 * 2 ^ 24 + c % 2 ^ 23 := by
      rw [Nat.testBit_eq_decide_div_mod_eq, decide_eq_false_iff_not] at hsign
      omega
    have hset := CBigNum.setCompact_eq (c / 2 ^ 24) (Nat.mod_lt c (by decide : 0 < 2 ^ 23))
    rw [← hc] at hset
    rw [hset, value_setCompact, Nat.mod_eq_of_lt hlt]
  get x hlt := by
    rw [CBigNum.setuint256_eq hlt]
    exact getCompact_same hlt
  word x hlt c h := by
    rcases Nat.eq_zero_or_pos x with rfl | hpos
    · rw [getCompact_zero, Option.some.injEq] at h
      rw [← h, setCompact_zero]
      rfl
    · have hword := Option.some.inj (h.symm.trans (getCompact_same hlt))
      rw [(setCompact_getCompact hpos hlt h).1, hword, CBigNum.setCompact_getCompact_of_lt hpos hlt]
  mono x y hle hlt :=
    ⟨_, _, getCompact_same (Nat.lt_of_le_of_lt hle hlt), getCompact_same hlt, CBigNum.getCompact_mono hle hlt⟩
  image x hlt fNegative c h := by
    rcases Nat.eq_zero_or_pos x with rfl | hpos
    · rw [getCompact_zero, Option.some.injEq] at h
      rw [← h, setCompact_zero]
      exact getCompact_zero false
    · obtain ⟨hvalue, hsign⟩ := setCompact_getCompact hpos hlt h
      have hlen := CBigNum.length_bn2mpi_le hpos hlt
      have hle := CBigNum.truncate_le x
      rw [hvalue, hsign, getCompact_eq (CBigNum.truncate_pos hpos) (by omega),
        CBigNum.getCompact_truncate hpos (by omega), ← h, getCompact_eq hpos hlt]
  precise x hlt c h := by
    rcases Nat.eq_zero_or_pos x with rfl | hpos
    · rw [getCompact_zero, Option.some.injEq] at h
      rw [← h, setCompact_zero]
      exact ⟨Nat.le_refl 0, Nat.le_refl 0⟩
    · rw [(setCompact_getCompact hpos hlt h).1]
      exact ⟨CBigNum.truncate_le x, CBigNum.sub_truncate_mul_le hpos⟩
  int64 sn hlow hup := CBigNum.setint64_eq hlow hup
  uint256 n hn := by
    rw [CBigNum.setuint256_eq hn]
    refine ⟨rfl, ?_⟩
    rcases Nat.eq_zero_or_pos n with rfl | hpos
    · simp [CBigNum.getuint256, CBigNum.bn2mpi]
    · rw [CBigNum.getuint256_eq_mod hpos, Nat.mod_eq_of_lt hn]

end Uint256

end Sphinx
