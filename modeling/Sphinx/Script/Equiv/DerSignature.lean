import Sphinx.Script.VerifyScript

/-!
# Correctness of `IsDERSignature`

The lengths of `R` and of `S` come from the string itself.  The function looks behind the first one only after
it has compared it with the size of the string, and behind the second one only after the two agree with the
size; so every read is inside of the string (`isDERSignatureRead_eq`), and an accepted string is the encoding
of two integers (`isDERSignature_iff`), which are the only ones it encodes.
-/

namespace Sphinx

variable {vchSig : Valtype} {hashtype : UInt8}

/-! ### The same function with checked reads -/

/-- `vchSig[i]`; `none` is a read outside of the string. -/
def derByte (vchSig : Valtype) (i : Nat) : Option Nat := vchSig[i]?.map UInt8.toNat

/-- `nLen > 1 && p[0] == 0x00 && !(p[1] & 0x80)`, where `p` is at `i`. -/
def derPadded (vchSig : Valtype) (nLen i : Nat) : Option Bool := do
  if nLen ≤ 1 then return false
  if (← derByte vchSig i) ≠ 0 then return false
  return (← derByte vchSig (i + 1)) < 0x80

/-- `IsDERSignature(vchSig, true)`, which reads the string where the source does. -/
def isDERSignatureRead (vchSig : Valtype) : Option Bool := do
  let size := vchSig.length
  if size < 9 then return false
  if 73 < size then return false
  if (← derByte vchSig 0) ≠ 0x30 then return false
  if (← derByte vchSig 1) ≠ size - 3 then return false
  let nLenR ← derByte vchSig 3
  if size ≤ 5 + nLenR then return false
  let nLenS ← derByte vchSig (5 + nLenR)
  if nLenR + nLenS + 7 ≠ size then return false
  let _ ← derByte vchSig 4
  if (← derByte vchSig 2) ≠ 0x02 then return false
  if nLenR = 0 then return false
  if 0x80 ≤ (← derByte vchSig 4) then return false
  if ← derPadded vchSig nLenR 4 then return false
  let _ ← derByte vchSig (6 + nLenR)
  if (← derByte vchSig (4 + nLenR)) ≠ 0x02 then return false
  if nLenS = 0 then return false
  if 0x80 ≤ (← derByte vchSig (6 + nLenR)) then return false
  if ← derPadded vchSig nLenS (6 + nLenR) then return false
  return true

theorem derByte_of_lt {i : Nat} (h : i < vchSig.length) :
    derByte vchSig i = some (vchSig.getD i 0).toNat := by
  rw [derByte, List.getD_eq_getElem?_getD, List.getElem?_eq_getElem h]
  rfl

theorem derPadded_of_lt {nLen i : Nat} (h : i + nLen < vchSig.length) :
    derPadded vchSig nLen i = some (decide (1 < nLen ∧ (vchSig.getD i 0).toNat = 0 ∧
      (vchSig.getD (i + 1) 0).toNat < 0x80)) := by
  unfold derPadded
  by_cases hlen : 1 < nLen
  · rw [derByte_of_lt (by omega), derByte_of_lt (by omega), if_neg (not_le.mpr hlen)]
    generalize (vchSig.getD i 0).toNat = a
    by_cases ha : a = 0 <;> simp [hlen, ha]
  · simp [hlen]

theorem isDERSignatureRead_eq (vchSig : Valtype) :
    isDERSignatureRead vchSig = some (isDERSignature vchSig true) := by
  unfold isDERSignatureRead isDERSignature
  dsimp only
  by_cases h9 : vchSig.length < 9
  · rw [if_pos h9, if_pos h9]
    rfl
  rw [if_neg h9, if_neg h9, derByte_of_lt (by omega : 0 < _), derByte_of_lt (by omega : 1 < _),
    derByte_of_lt (by omega : 2 < _), derByte_of_lt (by omega : 3 < _), derByte_of_lt (by omega : 4 < _)]
  simp only [Option.pure_def, Option.bind_eq_bind, Option.bind_some, if_true]
  -- the guards that come before a read behind the first length
  by_cases hfits : vchSig.length ≤ 5 + (vchSig.getD 3 0).toNat
  · rw [if_pos hfits, if_pos hfits]
    simp only [apply_ite some]
  rw [if_neg hfits, if_neg hfits, derByte_of_lt (by omega : 5 + (vchSig.getD 3 0).toNat < _), Option.bind_some]
  by_cases hsize : (vchSig.getD 3 0).toNat + (vchSig.getD (5 + (vchSig.getD 3 0).toNat) 0).toNat + 7 ≠ vchSig.length
  · rw [if_pos hsize, if_pos hsize]
    simp only [apply_ite some]
  rw [if_neg hsize, if_neg hsize, derPadded_of_lt (by omega), derPadded_of_lt (by omega),
    derByte_of_lt (by omega : 6 + (vchSig.getD 3 0).toNat < _),
    derByte_of_lt (by omega : 4 + (vchSig.getD 3 0).toNat < _)]
  have hnext : 6 + (vchSig.getD 3 0).toNat + 1 = 7 + (vchSig.getD 3 0).toNat := by omega
  simp only [Option.bind_some, decide_eq_true_eq, apply_ite some, Nat.reduceAdd, hnext]

/-! ### The strings that are accepted -/

/-- The bytes of an integer, highest first: not negative, and without a zero byte that is not needed. -/
def IsDerInteger (r : Valtype) : Prop :=
  ∃ b rest, r = b :: rest ∧ b.toNat < 0x80 ∧ (b = 0 → ∀ c ∈ rest.head?, 0x80 ≤ c.toNat)

theorem IsDerInteger.length_pos {r : Valtype} : IsDerInteger r → 0 < r.length := by
  rintro ⟨b, rest, rfl, -, -⟩
  exact Nat.succ_pos _

/-- `<30> <total len> <02> <len R> <R> <02> <len S> <S> <hashtype>`. -/
def derBytes (R S : Valtype) (hashtype : UInt8) : Valtype :=
  0x30 :: UInt8.ofNat (R.length + S.length + 4) :: 0x02 :: UInt8.ofNat R.length ::
    (R ++ 0x02 :: UInt8.ofNat S.length :: (S ++ [hashtype]))

theorem length_derBytes (R S : Valtype) (hashtype : UInt8) :
    (derBytes R S hashtype).length = R.length + S.length + 7 := by
  simp only [derBytes, List.length_cons, List.length_append, List.length_nil]
  omega

theorem isDerInteger_iff (r rest : Valtype) :
    IsDerInteger r ↔ r.length ≠ 0 ∧ ((r ++ rest).getD 0 0).toNat < 0x80 ∧
      ¬ (1 < r.length ∧ ((r ++ rest).getD 0 0).toNat = 0 ∧ ((r ++ rest).getD 1 0).toNat < 0x80) := by
  cases r with
  | nil => simp [IsDerInteger]
  | cons b r =>
    have hzero : b.toNat = 0 ↔ b = 0 := UInt8.toNat_inj (b := 0)
    cases r <;> simp [IsDerInteger, hzero]

/-- What is checked of a string whose first length is right. -/
theorem isDERSignature_frame {b₀ b₁ b₂ b₃ x y : UInt8} {R S : Valtype} (hR : b₃.toNat = R.length) :
    isDERSignature (b₀ :: b₁ :: b₂ :: b₃ :: (R ++ x :: y :: (S ++ [hashtype]))) true = true ↔
      R.length + S.length + 7 ≤ 73 ∧ b₀.toNat = 0x30 ∧ b₁.toNat = R.length + S.length + 4 ∧
        b₂.toNat = 0x02 ∧
        x.toNat = 0x02 ∧ y.toNat = S.length ∧ IsDerInteger R ∧ IsDerInteger S := by
  have hlen : (b₀ :: b₁ :: b₂ :: b₃ :: (R ++ x :: y :: (S ++ [hashtype]))).length =
      R.length + S.length + 7 := by
    simp only [List.length_cons, List.length_append, List.length_nil]
    omega
  have hbehind : ∀ i, (b₀ :: b₁ :: b₂ :: b₃ :: (R ++ x :: y :: (S ++ [hashtype]))).getD (4 + R.length + i) 0 =
      (x :: y :: (S ++ [hashtype])).getD i 0 := fun i => by
    have hshift : 4 + R.length + i = R.length + i + 4 := by omega
    rw [hshift]
    show (R ++ x :: y :: (S ++ [hashtype])).getD (R.length + i) 0 = _
    rw [List.getD_eq_getElem?_getD, List.getElem?_append_right (Nat.le_add_right _ _), Nat.add_sub_cancel_left,
      ← List.getD_eq_getElem?_getD]
  have h5 : 5 + R.length = 4 + R.length + 1 := by omega
  have h6 : 6 + R.length = 4 + R.length + 2 := by omega
  have h7 : 7 + R.length = 4 + R.length + 3 := by omega
  rw [isDerInteger_iff R (x :: y :: (S ++ [hashtype])), isDerInteger_iff S [hashtype], isDERSignature, hlen]
  have hx := hbehind 0
  rw [Nat.add_zero] at hx
  simp only [List.getD_cons_succ, List.getD_cons_zero, hR, h5, h6, h7, hbehind, hx]
  simp only [if_true, Bool.if_false_left, Bool.and_eq_true, Bool.not_eq_true', decide_eq_false_iff_not, and_true]
  generalize ((R ++ x :: y :: (S ++ [hashtype])).getD 0 0).toNat = r₀
  generalize ((R ++ x :: y :: (S ++ [hashtype])).getD 1 0).toNat = r₁
  generalize ((S ++ [hashtype]).getD 0 0).toNat = s₀
  generalize ((S ++ [hashtype]).getD 1 0).toNat = s₁
  by_cases hy : y.toNat = S.length
  · rw [hy]
    omega
  · omega

/-- Both lengths of an accepted string end inside of it. -/
theorem frame_of_isDERSignature (h : isDERSignature vchSig true = true) :
    ∃ b₀ b₁ b₂ b₃ x y hashtype, ∃ R S : Valtype, b₃.toNat = R.length ∧
      vchSig = b₀ :: b₁ :: b₂ :: b₃ :: (R ++ x :: y :: (S ++ [hashtype])) := by
  have hguards : (vchSig.getD 3 0).toNat + 7 ≤ vchSig.length := by
    unfold isDERSignature at h
    grind
  match vchSig with
  | [] | [_] | [_, _] | [_, _, _] => simp at hguards
  | b₀ :: b₁ :: b₂ :: b₃ :: rest =>
    have hrest : b₃.toNat + 3 ≤ rest.length := by
      change b₃.toNat + 7 ≤ rest.length + 4 at hguards
      omega
    have hsplit := List.take_append_drop b₃.toNat rest
    have hlen := congrArg List.length hsplit
    rw [List.length_append, List.length_take_of_le (by omega)] at hlen
    match hdrop : rest.drop b₃.toNat with
    | [] | [_] | [_, _] =>
      rw [hdrop] at hlen
      simp only [List.length_cons, List.length_nil] at hlen
      omega
    | x :: y :: z :: tail =>
      refine ⟨b₀, b₁, b₂, b₃, x, y, (z :: tail).getLast (List.cons_ne_nil _ _), rest.take b₃.toNat,
        (z :: tail).dropLast, (List.length_take_of_le (by omega)).symm, ?_⟩
      rw [List.dropLast_append_getLast, ← hdrop, hsplit]

theorem isDERSignature_derBytes {R S : Valtype} (hle : R.length + S.length + 7 ≤ 73) :
    isDERSignature (derBytes R S hashtype) true = true ↔ IsDerInteger R ∧ IsDerInteger S := by
  have hbyte : ∀ n < 256, (UInt8.ofNat n).toNat = n := fun n hn => UInt8.toNat_ofNat_of_lt hn
  rw [derBytes, isDERSignature_frame (hbyte _ (by omega)), hbyte _ (by omega), hbyte _ (by omega)]
  simp [hle]

theorem isDerInteger_of_accepted {R S : Valtype}
    (h : isDERSignature (derBytes R S hashtype) true = true) : IsDerInteger R ∧ IsDerInteger S := by
  have hle : (derBytes R S hashtype).length ≤ 73 := by
    unfold isDERSignature at h
    grind
  exact (isDERSignature_derBytes (length_derBytes R S hashtype ▸ hle)).mp h

theorem isDERSignature_iff (vchSig : Valtype) : isDERSignature vchSig true = true ↔
    ∃ R S hashtype, vchSig = derBytes R S hashtype ∧ 9 ≤ vchSig.length ∧ vchSig.length ≤ 73 ∧
      IsDerInteger R ∧ IsDerInteger S := by
  constructor
  · intro h
    obtain ⟨b₀, b₁, b₂, b₃, x, y, hashtype, R, S, h₃, rfl⟩ := frame_of_isDERSignature h
    obtain ⟨hle, h₀, h₁, h₂, hx, hy, hR, hS⟩ := (isDERSignature_frame h₃).mp h
    have heq : b₀ :: b₁ :: b₂ :: b₃ :: (R ++ x :: y :: (S ++ [hashtype])) = derBytes R S hashtype := by
      rw [derBytes, ← h₁, ← h₃, ← hy, UInt8.ofNat_toNat, UInt8.ofNat_toNat, UInt8.ofNat_toNat,
        UInt8.toNat_inj (b := 0x30) |>.mp h₀, UInt8.toNat_inj (b := 0x02) |>.mp h₂,
        UInt8.toNat_inj (b := 0x02) |>.mp hx]
    rw [heq, length_derBytes]
    have hRpos := hR.length_pos
    have hSpos := hS.length_pos
    exact ⟨R, S, hashtype, rfl, by omega, hle, hR, hS⟩
  · rintro ⟨R, S, hashtype, rfl, -, hle, hR, hS⟩
    exact (isDERSignature_derBytes (length_derBytes R S hashtype ▸ hle)).mpr ⟨hR, hS⟩

open BigEndian

/-- The only bytes of a number. -/
def derInteger (n : Nat) : Valtype :=
  match bn2bin n with
  | [] => [0]
  | b :: bytes => if 0x80 ≤ b.toNat then 0 :: b :: bytes else b :: bytes

theorem IsDerInteger.eq_derInteger {r : Valtype} (h : IsDerInteger r) : r = derInteger (bin2bn r) := by
  obtain ⟨b, rest, rfl, hb, hpad⟩ := h
  by_cases hzero : b = 0
  · have hskip : bin2bn (b :: rest) = bin2bn rest := by
      rw [bin2bn_cons, hzero, UInt8.toNat_zero, Nat.zero_mul, Nat.zero_add]
    rw [hskip, hzero]
    cases rest with
    | nil => rfl
    | cons c rest =>
      have hc := hpad hzero c rfl
      rw [derInteger, bn2bin_bin2bn (by rintro rfl; contradiction)]
      exact (if_pos hc).symm
  · rw [derInteger, bn2bin_bin2bn hzero]
    exact (if_neg (not_le.mpr hb)).symm

/-- What is accepted are the encodings of two integers; no read is outside of the string, and the integers and
the hash type determine it. -/
structure StrictDer : Prop where
  accepts : ∀ vchSig, isDERSignature vchSig true = true ↔
    ∃ R S hashtype, vchSig = derBytes R S hashtype ∧ 9 ≤ vchSig.length ∧ vchSig.length ≤ 73 ∧
      IsDerInteger R ∧ IsDerInteger S
  inside : ∀ vchSig, isDERSignatureRead vchSig = some (isDERSignature vchSig true)
  determined : ∀ R S R' S' hashtype, isDERSignature (derBytes R S hashtype) true = true →
    isDERSignature (derBytes R' S' hashtype) true = true → bin2bn R = bin2bn R' → bin2bn S = bin2bn S' →
      derBytes R S hashtype = derBytes R' S' hashtype

/-- **The accepted signatures are the strict DER encodings.** -/
theorem strictDer : StrictDer where
  accepts := isDERSignature_iff
  inside := isDERSignatureRead_eq
  determined R S R' S' hashtype h h' hR hS := by
    obtain ⟨hR₀, hS₀⟩ := isDerInteger_of_accepted h
    obtain ⟨hR₁, hS₁⟩ := isDerInteger_of_accepted h'
    rw [hR₀.eq_derInteger, hS₀.eq_derInteger, hR, hS, ← hR₁.eq_derInteger, ← hS₁.eq_derInteger]

end Sphinx
