import Sphinx.Script.Equiv.Interpreter

/-!
# Correctness of the numbers of the interpreter

A number is the bytes of its magnitude, lowest first, with the sign in the top bit of the last byte.  Such a
string is as short as can be exactly when its magnitude needs the last byte (`isMinimal_concat`), so that
`serialize` and the checking constructor of `CScriptNum` are inverse to one another.
-/

namespace Sphinx.CScriptNum

open CScript (setVch fromLE_lt)

variable {v : Int} {vch : Valtype}

/-- The number that `init ++ [b]` stands for, without its sign. -/
def magnitude (init : Valtype) (b : UInt8) : Nat :=
  CScript.fromLE init + 256 ^ init.length * (b.toNat % 0x80)

theorem fromLE_concat (init : Valtype) (b : UInt8) :
    CScript.fromLE (init ++ [b]) = CScript.fromLE init + 256 ^ init.length * b.toNat := by
  simp [CScript.fromLE, Nat.ofDigits_append]

theorem magnitude_cons (c : UInt8) (init : Valtype) (b : UInt8) :
    magnitude (c :: init) b = c.toNat + 256 * magnitude init b := by
  simp [magnitude, CScript.fromLE, Nat.ofDigits_cons, pow_succ]
  ring

section

variable (init : Valtype) (b : UInt8)

theorem magnitude_lt : 2 * magnitude init b < 256 ^ (init.length + 1) := by
  have hlow := fromLE_lt init
  have hlast : 256 ^ init.length * (b.toNat % 0x80) ≤ 256 ^ init.length * 127 :=
    Nat.mul_le_mul_left _ (Nat.le_of_lt_succ (Nat.mod_lt _ (by norm_num)))
  rw [magnitude, pow_succ]
  omega

theorem setVch_concat :
    setVch (init ++ [b]) = if 0x80 ≤ b.toNat then -(magnitude init b : Int) else magnitude init b := by
  have hb := b.toNat_lt
  rw [setVch, List.getLast?_concat]
  dsimp only
  rw [fromLE_concat, List.length_append, List.length_singleton, Nat.add_sub_cancel, magnitude]
  split
  next h =>
    -- without its top bit the last byte is its remainder
    have hmod : b.toNat = b.toNat % 0x80 + 0x80 := by omega
    have hcancel : CScript.fromLE init + 256 ^ init.length * b.toNat - 0x80 * 256 ^ init.length =
        CScript.fromLE init + 256 ^ init.length * (b.toNat % 0x80) := by
      conv_lhs => rw [hmod, Nat.mul_add, Nat.mul_comm 0x80]
      omega
    rw [hcancel]
  next h => rw [Nat.mod_eq_of_lt (not_le.mp h)]

theorem natAbs_setVch_concat : (setVch (init ++ [b])).natAbs = magnitude init b := by
  rw [setVch_concat]
  split <;> omega

theorem isMinimal_concat :
    isMinimal (init ++ [b]) = true ↔ 256 ^ init.length ≤ 2 * magnitude init b := by
  simp only [isMinimal, List.getLast?_concat, List.length_append, List.length_singleton, Bool.or_eq_true,
    decide_eq_true_eq, Bool.not_eq_true', Bool.or_eq_false_iff, decide_eq_false_iff_not]
  by_cases hb : b.toNat % 0x80 = 0
  · cases init using List.reverseRecOn with
    | nil => simp [magnitude, CScript.fromLE, hb]
    | append_singleton init c =>
      have hlow := fromLE_lt init
      have hget : (init ++ [c] ++ [b]).getD (init.length + 1 + 1 - 2) 0 = c := by simp
      have hscale : 0x80 ≤ c.toNat ∧ 256 ^ init.length * 0x80 ≤ 256 ^ init.length * c.toNat ∨
          c.toNat < 0x80 ∧ 256 ^ init.length * c.toNat + 256 ^ init.length ≤ 256 ^ init.length * 0x80 :=
        (Nat.lt_or_ge c.toNat 0x80).symm.imp (fun h => ⟨h, Nat.mul_le_mul_left _ h⟩)
          fun h => ⟨h, Nat.mul_le_mul_left _ h⟩
      rw [magnitude, hb, fromLE_concat, List.length_append, List.length_singleton, hget, pow_succ]
      omega
  · have hpos : 256 ^ init.length * 1 ≤ 256 ^ init.length * (b.toNat % 0x80) :=
      Nat.mul_le_mul_left _ (Nat.pos_of_ne_zero hb)
    rw [magnitude]
    omega

end

/-- Two minimal encodings of one number are the same. -/
theorem concat_inj {init init' : Valtype} {b b' : UInt8} (h : isMinimal (init ++ [b]))
    (h' : isMinimal (init' ++ [b'])) (heq : setVch (init ++ [b]) = setVch (init' ++ [b'])) :
    init ++ [b] = init' ++ [b'] := by
  rw [isMinimal_concat] at h h'
  have hmag : magnitude init b = magnitude init' b' := by
    rw [← natAbs_setVch_concat, ← natAbs_setVch_concat, heq]
  have hle : ∀ {i j : Valtype} {c d : UInt8}, 256 ^ i.length ≤ 2 * magnitude i c →
      magnitude i c = magnitude j d →
      i.length ≤ j.length := fun {i j c d} hi hij => by
    have hlt := (hi.trans_eq (congrArg (2 * ·) hij)).trans_lt (magnitude_lt j d)
    exact Nat.le_of_lt_succ ((Nat.pow_lt_pow_iff_right (by norm_num)).mp hlt)
  have hlen : init.length = init'.length := (hle h hmag).antisymm (hle h' hmag.symm)
  have hpos : 0 < 256 ^ init.length := by positivity
  have hdiv : ∀ {i : Valtype} {c : UInt8}, magnitude i c % 256 ^ i.length = CScript.fromLE i ∧
      magnitude i c / 256 ^ i.length = c.toNat % 0x80 := fun {i c} => by
    rw [magnitude, Nat.add_mul_mod_self_left, Nat.add_mul_div_left _ _ (by positivity),
      Nat.mod_eq_of_lt (fromLE_lt i), Nat.div_eq_of_lt (fromLE_lt i), Nat.zero_add]
    exact ⟨rfl, rfl⟩
  have hinit : init.map UInt8.toNat = init'.map UInt8.toNat := by
    refine Nat.ofDigits_inj_of_len_eq (b := 256) (by norm_num) (by simpa using hlen) ?_ ?_ ?_
    · exact fun d hd => by obtain ⟨c, -, rfl⟩ := List.mem_map.mp hd; exact c.toNat_lt
    · exact fun d hd => by obtain ⟨c, -, rfl⟩ := List.mem_map.mp hd; exact c.toNat_lt
    · show CScript.fromLE init = CScript.fromLE init'
      rw [← hdiv.1, ← (hdiv (c := b')).1, hmag, hlen]
  have hlast : b = b' := by
    have hmod : b.toNat % 0x80 = b'.toNat % 0x80 := by rw [← hdiv.2, ← (hdiv (i := init')).2, hmag, hlen]
    have hb := b.toNat_lt
    have hb' := b'.toNat_lt
    have hne : 0 < magnitude init b := by omega
    refine UInt8.toNat_inj.mp ?_
    rw [setVch_concat, setVch_concat, hmag] at heq
    split at heq <;> split at heq <;> omega
  rw [List.map_injective_iff.mpr (fun _ _ => UInt8.toNat_inj.mp) hinit, hlast]

/-! ### The encoder -/

theorem spec_of_magnitude {init : Valtype} {b : UInt8} (hmag : magnitude init b = v.natAbs)
    (hsign : 0x80 ≤ b.toNat ↔ v < 0) (hlen : 256 ^ init.length ≤ 2 * v.natAbs) :
    setVch (init ++ [b]) = v ∧ isMinimal (init ++ [b]) := by
  refine ⟨?_, (isMinimal_concat init b).mpr (hmag ▸ hlen)⟩
  rw [setVch_concat, hmag]
  split <;> omega

theorem serialize_spec (hv : v ≠ 0) :
    ∃ init b, serialize v = init ++ [b] ∧ setVch (init ++ [b]) = v ∧ isMinimal (init ++ [b]) := by
  have hdigits : ∀ d ∈ Nat.digits 256 v.natAbs, d < 256 := fun d hd => Nat.digits_lt_base (by norm_num) hd
  have hdne : Nat.digits 256 v.natAbs ≠ [] := Nat.digits_ne_nil_iff_ne_zero.mpr (Int.natAbs_ne_zero.mpr hv)
  have hvalue : CScript.fromLE ((Nat.digits 256 v.natAbs).map UInt8.ofNat) = v.natAbs := by
    rw [CScript.fromLE, List.map_map, List.map_congr_left (g := id) fun d hd => ?_, List.map_id, Nat.ofDigits_digits]
    exact UInt8.toNat_ofNat_of_lt (hdigits d hd)
  have hlead : ∀ b, ((Nat.digits 256 v.natAbs).map UInt8.ofNat).getLast? = some b → b.toNat ≠ 0 := by
    intro b hb
    rw [List.getLast?_map, List.getLast?_eq_some_getLast hdne] at hb
    obtain rfl := Option.some.inj hb
    rw [UInt8.toNat_ofNat', Nat.mod_eq_of_lt (hdigits _ (List.getLast_mem hdne))]
    exact Nat.getLast_digit_ne_zero 256 (Int.natAbs_ne_zero.mpr hv)
  unfold serialize
  generalize (Nat.digits 256 v.natAbs).map UInt8.ofNat = result at hvalue hlead
  cases result using List.reverseRecOn with
  | nil => exact absurd (Int.natAbs_eq_zero.mp hvalue.symm) hv
  | append_singleton init b =>
    have hb := b.toNat_lt
    have hb0 := hlead b List.getLast?_concat
    have hvalue' := (fromLE_concat init b).symm.trans hvalue
    simp only [List.getLast?_concat, List.dropLast_concat]
    by_cases hbig : 0x80 ≤ b.toNat
    · -- the sign has a byte of its own
      have hscale := Nat.mul_le_mul_left (256 ^ init.length) hbig
      rw [if_pos hbig]
      refine ⟨_, _, rfl, spec_of_magnitude ?_ ?_ ?_⟩
      · rw [magnitude, hvalue]
        split <;> rfl
      · split <;> simp_all
      · rw [List.length_append, List.length_singleton, pow_succ]
        omega
    · have hpos := Nat.mul_le_mul_left (256 ^ init.length) (Nat.one_le_iff_ne_zero.mpr hb0)
      rw [if_neg hbig]
      split_ifs with hneg
      · have hor : (b ||| 0x80).toNat = b.toNat + 0x80 := by
          have hall : ∀ k : Fin 128, k.val ||| 128 = k.val + 128 := by decide
          rw [UInt8.toNat_or]
          exact hall ⟨b.toNat, by omega⟩
        have hmod : (b ||| 0x80).toNat % 0x80 = b.toNat := by omega
        refine ⟨init, _, rfl, spec_of_magnitude ?_ (by omega) (by omega)⟩
        rw [magnitude, hmod, hvalue']
      · refine ⟨init, b, rfl, spec_of_magnitude ?_ (by omega) (by omega)⟩
        rw [magnitude, Nat.mod_eq_of_lt (not_le.mp hbig), hvalue']

/-- What is written is read back. -/
theorem setVch_serialize (v : Int) : setVch (serialize v) = v := by
  by_cases hv : v = 0
  · rw [hv]
    rfl
  · obtain ⟨init, b, heq, hset, -⟩ := serialize_spec hv
    rw [heq, hset]

theorem isMinimal_serialize (v : Int) : isMinimal (serialize v) := by
  by_cases hv : v = 0
  · rw [hv]
    rfl
  · obtain ⟨init, b, heq, -, hmin⟩ := serialize_spec hv
    rwa [heq]

/-- A minimal encoding is the one that is written. -/
theorem serialize_setVch (h : isMinimal vch) : serialize (setVch vch) = vch := by
  cases vch using List.reverseRecOn with
  | nil => rfl
  | append_singleton init b =>
    have hpow := (isMinimal_concat init b).mp h
    have hpos : 0 < 256 ^ init.length := by positivity
    have hne : setVch (init ++ [b]) ≠ 0 := by
      rw [← Int.natAbs_ne_zero, natAbs_setVch_concat]
      omega
    obtain ⟨init', b', heq, hset, hmin⟩ := serialize_spec hne
    rw [heq, concat_inj hmin h hset]

theorem length_serialize_of_lt {k : Nat} (h : 2 * v.natAbs < 256 ^ k) : (serialize v).length ≤ k := by
  by_cases hv : v = 0
  · rw [hv]
    exact Nat.zero_le _
  · obtain ⟨init, b, heq, hset, hmin⟩ := serialize_spec hv
    rw [isMinimal_concat, ← natAbs_setVch_concat, hset] at hmin
    rw [heq, List.length_append]
    exact (Nat.pow_lt_pow_iff_right (by norm_num)).mp (hmin.trans_lt h)

theorem two_mul_natAbs_setVch_lt (vch : Valtype) : 2 * (setVch vch).natAbs < 256 ^ max vch.length 1 := by
  cases vch using List.reverseRecOn with
  | nil => decide
  | append_singleton init b =>
    rw [natAbs_setVch_concat, List.length_append]
    exact (magnitude_lt init b).trans_le (Nat.pow_le_pow_right (by norm_num) (le_max_left _ _))

/-! ### Truth values -/

theorem castToBool_concat (init : Valtype) (b : UInt8) :
    castToBool (init ++ [b]) = decide (magnitude init b ≠ 0) := by
  induction init with
  | nil =>
    have hb := b.toNat_lt
    have hzero : b = 0 ↔ b.toNat = 0 := UInt8.toNat_inj.symm
    have hneg : b = 0x80 ↔ b.toNat = 0x80 := UInt8.toNat_inj.symm
    simp only [List.nil_append, castToBool, magnitude, CScript.fromLE, hzero, hneg]
    split <;> simp <;> omega
  | cons c init ih =>
    rw [List.cons_append, castToBool, magnitude_cons]
    split
    next hc =>
      rw [ih, hc]
      simp
    next hc =>
      have hpos : c.toNat ≠ 0 := fun h => hc (UInt8.toNat_inj.mp h)
      simp [hpos]

/-- Only the encodings of zero are false. -/
theorem castToBool_eq (vch : Valtype) : castToBool vch = decide (setVch vch ≠ 0) := by
  cases vch using List.reverseRecOn with
  | nil => rfl
  | append_singleton init b =>
    rw [castToBool_concat, decide_eq_decide, ← natAbs_setVch_concat, Int.natAbs_ne_zero]

/-! ### Operands and results -/

theorem ofVch_eq_ok {fRequireMinimal : Bool} :
    ofVch vch fRequireMinimal = .ok v ↔
      vch.length ≤ 4 ∧ (fRequireMinimal → isMinimal vch) ∧ setVch vch = v := by
  unfold ofVch nMaxNumSize
  split_ifs with hlong hmin <;> simp_all

theorem ofVch_range {fRequireMinimal : Bool} (h : ofVch vch fRequireMinimal = .ok v) :
    -2 ^ 31 + 1 ≤ v ∧ v ≤ 2 ^ 31 - 1 := by
  obtain ⟨hlen, -, rfl⟩ := ofVch_eq_ok.mp h
  have hlt := (two_mul_natAbs_setVch_lt vch).trans_le
    (Nat.pow_le_pow_right (by norm_num) (max_le hlen (by norm_num) : _ ≤ 4))
  omega

/-- A result of an arithmetic opcode is an `int64_t`, of at most five bytes. -/
def IsResult (v : Int) : Prop := Codec.FitsInt 8 v ∧ (serialize v).length ≤ 5

theorem isResult_of_lt (h : v.natAbs < 2 ^ 33) : IsResult v := by
  refine ⟨?_, length_serialize_of_lt (by omega)⟩
  unfold Codec.FitsInt
  omega

/-- What the interpreter relies on of its numbers. -/
structure Faithful : Prop where
  accepts : ∀ v : Int, |v| < 2 ^ 31 → ofVch (serialize v) true = .ok v
  canonical : ∀ vch v, ofVch vch true = .ok v → serialize v = vch
  range : ∀ vch : Valtype, vch.length ≤ 4 →
    ∃ v, ofVch vch false = .ok v ∧ -2 ^ 31 + 1 ≤ v ∧ v ≤ 2 ^ 31 - 1
  unary : ∀ op vch fRequireMinimal bn, ofVch vch fRequireMinimal = .ok bn → IsResult (UnaryOp.eval bn op)
  binary : ∀ op vch1 vch2 fRequireMinimal bn1 bn2, ofVch vch1 fRequireMinimal = .ok bn1 →
    ofVch vch2 fRequireMinimal = .ok bn2 → IsResult (BinaryOp.eval bn1 bn2 op)
  bool : ∀ v, castToBool (serialize v) = decide (v ≠ 0)

/-- **The numbers of scripts are faithful**, for all byte strings. -/
theorem faithful : Faithful where
  accepts v hv := by
    have hlen : (serialize v).length ≤ 4 := length_serialize_of_lt (by
      rw [Int.abs_eq_natAbs] at hv
      omega)
    exact ofVch_eq_ok.mpr ⟨hlen, fun _ => isMinimal_serialize v, setVch_serialize v⟩
  canonical vch v h := by
    obtain ⟨-, hmin, rfl⟩ := ofVch_eq_ok.mp h
    exact serialize_setVch (hmin rfl)
  range vch hlen := by
    have hok : ofVch vch false = .ok (setVch vch) := ofVch_eq_ok.mpr ⟨hlen, by simp, rfl⟩
    exact ⟨_, hok, ofVch_range hok⟩
  unary op vch fRequireMinimal bn h := by
    have hrange := ofVch_range h
    have hle := natAbs_unary_le op bn
    exact isResult_of_lt (by omega)
  binary op vch1 vch2 fRequireMinimal bn1 bn2 h1 h2 := by
    have hrange1 := ofVch_range h1
    have hrange2 := ofVch_range h2
    have hle := natAbs_binary_le op bn1 bn2
    exact isResult_of_lt (by omega)
  bool v := by rw [castToBool_eq, setVch_serialize]

end Sphinx.CScriptNum
