import Mathlib.Data.List.Induction
import Sphinx.Primitives.Serialize

/-!
# Variable-length integers

`highDigits` is the number that the bytes with the high bit stand for: every digit counts one more
than it says, so that no digits are the number zero, and any others a positive one.  Each positive
number has such digits (`exists_highDigits`); writer, reader and size function are followed along them.
-/

namespace Sphinx

open Codec

/-- `(a[len-1] & 0x7F) + sum(i=1..len-1, 128^i*((a[len-i-1] & 0x7F)+1))`, as the comment has it. -/
def varIntValue (a : List UInt8) : Nat :=
  match a.reverse with
  | [] => 0
  | last :: init => Nat.ofDigits 128 (last.toNat % 128 :: init.map fun b => b.toNat % 128 + 1)

/-- All bytes but the last have bit 0x80 set. -/
def IsVarInt (a : List UInt8) : Prop :=
  ∃ init last, a = init ++ [last] ∧ (∀ b ∈ init, b &&& 0x80 ≠ 0) ∧ last &&& 0x80 = 0

def highDigits (init : List UInt8) : Nat := Nat.ofDigits 128 (init.reverse.map fun b => b.toNat % 128 + 1)

theorem highDigits_concat (init : List UInt8) (b : UInt8) :
    highDigits (init ++ [b]) = b.toNat % 128 + 1 + 128 * highDigits init := by
  simp [highDigits, Nat.ofDigits_cons]

theorem highDigits_cons (b : UInt8) (init : List UInt8) :
    highDigits (b :: init) = highDigits init + 128 ^ init.length * (b.toNat % 128 + 1) := by
  simp [highDigits, Nat.ofDigits_append]

theorem varIntValue_concat (init : List UInt8) (last : UInt8) :
    varIntValue (init ++ [last]) = last.toNat % 128 + 128 * highDigits init := by
  simp [varIntValue, highDigits, Nat.ofDigits_cons]

theorem pow_length_le (init : List UInt8) : 128 ^ init.length ≤ 128 * highDigits init + 1 := by
  induction init using List.reverseRecOn with
  | nil => exact le_rfl
  | append_singleton init b ih =>
    rw [highDigits_concat, List.length_append, List.length_singleton, pow_succ]
    omega

theorem length_le_highDigits (init : List UInt8) : init.length ≤ highDigits init := by
  induction init using List.reverseRecOn with
  | nil => exact le_rfl
  | append_singleton init b ih =>
    rw [highDigits_concat, List.length_append, List.length_singleton]
    omega

/-! ### Digits -/

theorem highBit_iff (b : UInt8) : b &&& 0x80 ≠ 0 ↔ 128 ≤ b.toNat := by
  have hall : ∀ i : Fin 256, UInt8.ofNat i &&& 0x80 ≠ 0 ↔ 128 ≤ i.val := by decide +kernel
  simpa using hall ⟨b.toNat, b.toNat_lt⟩

theorem toNat_or_highBit {b : UInt8} (h : b.toNat < 128) : (b ||| 0x80).toNat = b.toNat + 128 := by
  have hor := Nat.two_pow_add_eq_or_of_lt (i := 7) h 1
  rw [UInt8.toNat_or, Nat.or_comm]
  exact hor.symm.trans (Nat.add_comm 128 b.toNat)

theorem toNat_lowDigit (n : UInt64) : (n &&& 0x7F).toUInt8.toNat = n.toNat % 128 := by
  have hand := Nat.and_two_pow_sub_one_eq_mod n.toNat 7
  rw [UInt64.toNat_toUInt8, UInt64.toNat_and]
  show (n.toNat &&& 2 ^ 7 - 1) % 256 = _
  omega

theorem toNat_nextVarInt {n : UInt64} (h : 128 ≤ n.toNat) : (nextVarInt n).toNat + 1 = n.toNat / 128 := by
  have hshift : (n >>> 7).toNat = n.toNat / 128 := by
    rw [UInt64.toNat_shiftRight]
    exact Nat.shiftRight_eq_div_pow n.toNat 7
  have hone : (1 : UInt64) ≤ n >>> 7 := by
    rw [UInt64.le_iff_toNat_le, hshift]
    show 1 ≤ n.toNat / 128
    omega
  rw [nextVarInt, UInt64.toNat_sub_of_le _ _ hone, hshift]
  show n.toNat / 128 - 1 + 1 = _
  omega

theorem le_127_iff (n : UInt64) : n ≤ 0x7F ↔ n.toNat < 128 := by
  rw [UInt64.le_iff_toNat_le]
  exact Nat.lt_succ_iff.symm

/-- A digit comes in behind the number `m`. -/
theorem shift_or_digit (m : Nat) (b : UInt8) :
    (UInt64.ofNat m <<< 7) ||| (b &&& 0x7F).toUInt64 = UInt64.ofNat (b.toNat % 128 + 128 * m) := by
  have hdigit : (b &&& 0x7F).toUInt64.toNat = b.toNat % 128 := by
    rw [UInt8.toNat_toUInt64, UInt8.toNat_and]
    exact Nat.and_two_pow_sub_one_eq_mod b.toNat 7
  have hshift : (UInt64.ofNat m <<< 7).toNat = 2 ^ 7 * (m % 2 ^ 57) := by
    rw [UInt64.toNat_shiftLeft, UInt64.toNat_ofNat']
    show (m % 2 ^ 64) <<< 7 % 2 ^ 64 = _
    rw [Nat.shiftLeft_eq]
    omega
  refine UInt64.toNat.inj ?_
  rw [UInt64.toNat_or, hshift, hdigit, ← Nat.two_pow_add_eq_or_of_lt (by omega), UInt64.toNat_ofNat']
  omega

theorem exists_highDigits {m : Nat} (hm : 0 < m) :
    ∃ init, init ≠ [] ∧ (∀ b ∈ init, b &&& 0x80 ≠ 0) ∧ highDigits init = m := by
  induction m using Nat.strong_induction_on with
  | _ m ih =>
    have hb : (UInt8.ofNat ((m - 1) % 128 + 128)).toNat = (m - 1) % 128 + 128 := by
      rw [UInt8.toNat_ofNat']
      omega
    have hbit := (highBit_iff (UInt8.ofNat ((m - 1) % 128 + 128))).mpr (by omega)
    by_cases hsmall : (m - 1) / 128 = 0
    · refine ⟨[UInt8.ofNat ((m - 1) % 128 + 128)], List.cons_ne_nil _ _, List.forall_mem_singleton.mpr hbit, ?_⟩
      rw [← List.nil_append [_], highDigits_concat, hb]
      show _ + 128 * 0 = m
      omega
    · obtain ⟨init, -, hbits, hvalue⟩ := ih ((m - 1) / 128) (by omega) (by omega)
      refine ⟨init ++ [UInt8.ofNat ((m - 1) % 128 + 128)],
        List.append_ne_nil_of_right_ne_nil _ (List.cons_ne_nil _ _),
        List.forall_mem_append.mpr ⟨hbits, List.forall_mem_singleton.mpr hbit⟩, ?_⟩
      rw [highDigits_concat, hvalue, hb]
      omega

theorem exists_isVarInt (n : Nat) : ∃ a, IsVarInt a ∧ varIntValue a = n := by
  have hlast : (UInt8.ofNat (n % 128)).toNat = n % 128 := by
    rw [UInt8.toNat_ofNat']
    omega
  have hbit : UInt8.ofNat (n % 128) &&& 0x80 = 0 := not_not.mp (mt (highBit_iff _).mp (by omega))
  by_cases hsmall : n / 128 = 0
  · refine ⟨[UInt8.ofNat (n % 128)], ⟨[], _, rfl, fun b hb => absurd hb List.not_mem_nil, hbit⟩, ?_⟩
    rw [← List.nil_append [_], varIntValue_concat, hlast]
    show _ + 128 * 0 = n
    omega
  · obtain ⟨init, -, hbits, hvalue⟩ := exists_highDigits (Nat.pos_of_ne_zero hsmall)
    refine ⟨_, ⟨init, _, rfl, hbits, hbit⟩, ?_⟩
    rw [varIntValue_concat, hlast, hvalue]
    omega

/-! ### Along the digits -/

theorem writeVarIntLoop_highDigits {init : List UInt8} (hbits : ∀ b ∈ init, b &&& 0x80 ≠ 0) :
    ∀ {room : Nat} {n : UInt64} {tmp : List UInt8}, init ≠ [] → tmp ≠ [] → n.toNat + 1 = highDigits init →
      init.length ≤ room → writeVarIntLoop room n tmp = some (init ++ tmp) := by
  induction init using List.reverseRecOn with
  | nil => exact fun h => absurd rfl h
  | append_singleton init b ih =>
    intro room n tmp _ htmp hn hroom
    rw [highDigits_concat] at hn
    rw [List.length_append, List.length_singleton] at hroom
    obtain ⟨room, rfl⟩ : ∃ k, room = k + 1 := ⟨room - 1, by omega⟩
    have hb := (highBit_iff b).mp (hbits b (List.mem_append_right _ List.mem_cons_self))
    have hlt := b.toNat_lt
    have hlow := toNat_lowDigit n
    have hdigit : (n &&& 0x7F).toUInt8 ||| 0x80 = b := by
      refine UInt8.toNat.inj ?_
      rw [toNat_or_highBit (by omega), hlow]
      omega
    have hempty : tmp.isEmpty = false := List.isEmpty_eq_false_iff.mpr htmp
    rw [writeVarIntLoop, hempty, if_neg Bool.false_ne_true, hdigit, List.append_assoc]
    by_cases hinit : init = []
    · subst hinit
      have hzero : highDigits [] = 0 := rfl
      rw [if_pos ((le_127_iff n).mpr (by omega))]
      rfl
    · have hpos := (List.length_pos_of_ne_nil hinit).trans_le (length_le_highDigits init)
      have hnext := toNat_nextVarInt (n := n) (by omega)
      rw [if_neg (mt (le_127_iff n).mp (by omega))]
      exact ih (fun c hc => hbits c (List.mem_append_left _ hc)) hinit (List.cons_ne_nil _ _) (by omega) (by omega)

theorem sizeOfVarIntLoop_highDigits {init : List UInt8} : ∀ {fuel : Nat} {n : UInt64} {nRet : Nat}, init ≠ [] →
    n.toNat + 1 = highDigits init → init.length ≤ fuel →
      sizeOfVarIntLoop fuel n nRet = some (nRet + init.length) := by
  induction init using List.reverseRecOn with
  | nil => exact fun h => absurd rfl h
  | append_singleton init b ih =>
    intro fuel n nRet _ hn hfuel
    rw [highDigits_concat] at hn
    rw [List.length_append, List.length_singleton] at hfuel ⊢
    obtain ⟨fuel, rfl⟩ : ∃ k, fuel = k + 1 := ⟨fuel - 1, by omega⟩
    rw [sizeOfVarIntLoop]
    by_cases hinit : init = []
    · subst hinit
      have hzero : highDigits [] = 0 := rfl
      rw [if_pos ((le_127_iff n).mpr (by omega))]
      rfl
    · have hpos := (List.length_pos_of_ne_nil hinit).trans_le (length_le_highDigits init)
      have hnext := toNat_nextVarInt (n := n) (by omega)
      rw [if_neg (mt (le_127_iff n).mp (by omega)), ih hinit (by omega) (by omega), Nat.add_assoc, Nat.add_comm 1]

theorem readVarIntLoop_highDigits {last : UInt8} (hlast : last &&& 0x80 = 0) (rest : List UInt8) :
    ∀ (init : List UInt8) (m : Nat), (∀ b ∈ init, b &&& 0x80 ≠ 0) →
      readVarIntLoop (.ofNat m) (init ++ last :: rest) =
        some (.ofNat (last.toNat % 128 + 128 * (highDigits init + 128 ^ init.length * m)), rest) := by
  intro init
  induction init with
  | nil =>
    intro m _
    have hm : highDigits [] + 128 ^ ([] : List UInt8).length * m = m := by simp [highDigits]
    rw [List.nil_append, readVarIntLoop, shift_or_digit, if_neg (not_not.mpr hlast), hm]
  | cons b init ih =>
    intro m hbits
    rw [List.forall_mem_cons] at hbits
    have hone : UInt64.ofNat (b.toNat % 128 + 128 * m) + 1 = .ofNat (b.toNat % 128 + 1 + 128 * m) := by
      rw [show (1 : UInt64) = .ofNat 1 from rfl, ← UInt64.ofNat_add]
      congr 1
      omega
    rw [List.cons_append, readVarIntLoop, shift_or_digit, if_pos hbits.1, hone, ih _ hbits.2, highDigits_cons,
      List.length_cons]
    congr 4
    ring

/-- **Writer, reader and size function agree** on every encoding of a number below 2^64. -/
theorem isVarInt_spec {a : List UInt8} (ha : IsVarInt a) {n : UInt64} (hn : varIntValue a = n.toNat) :
    writeVarInt n = some a ∧ getSizeOfVarInt n = some a.length ∧ Reads readVarInt a n := by
  obtain ⟨init, last, rfl, hbits, hlast⟩ := ha
  rw [varIntValue_concat] at hn
  have hlt := n.toNat_lt
  have hlow := toNat_lowDigit n
  have hlast' : last.toNat < 128 := not_le.mp (mt (highBit_iff last).mpr (not_not.mpr hlast))
  have hlen : init.length ≤ 9 := by
    by_contra hlong
    have hpow : 128 ^ 10 ≤ 128 ^ init.length := Nat.pow_le_pow_right (by decide) (by omega)
    have hle := pow_length_le init
    omega
  have hdigit : (n &&& 0x7F).toUInt8 ||| 0x00 = last := by
    refine UInt8.toNat.inj ?_
    rw [UInt8.or_zero, hlow]
    omega
  refine ⟨?_, ?_, fun rest => ?_⟩
  · show writeVarIntLoop (9 + 1) n [] = _
    rw [writeVarIntLoop, List.isEmpty_nil, if_pos rfl, hdigit]
    by_cases hinit : init = []
    · subst hinit
      have hzero : highDigits [] = 0 := rfl
      rw [if_pos ((le_127_iff n).mpr (by omega))]
      rfl
    · have hpos := (List.length_pos_of_ne_nil hinit).trans_le (length_le_highDigits init)
      have hnext := toNat_nextVarInt (n := n) (by omega)
      rw [if_neg (mt (le_127_iff n).mp (by omega))]
      exact writeVarIntLoop_highDigits hbits hinit (List.cons_ne_nil _ _) (by omega) hlen
  · rw [getSizeOfVarInt, sizeOfVarIntLoop, List.length_append, List.length_singleton]
    by_cases hinit : init = []
    · subst hinit
      have hzero : highDigits [] = 0 := rfl
      rw [if_pos ((le_127_iff n).mpr (by omega))]
      rfl
    · have hpos := length_le_highDigits init
      have hpos' := List.length_pos_of_ne_nil hinit
      have hnext := toNat_nextVarInt (n := n) (by omega)
      rw [if_neg (mt (le_127_iff n).mp (by omega)), sizeOfVarIntLoop_highDigits hinit (by omega) (by omega),
        Nat.zero_add, Nat.add_comm]
  · rw [List.append_assoc, readVarInt]
    refine (readVarIntLoop_highDigits hlast rest init 0 hbits).trans ?_
    rw [Nat.mul_zero, Nat.add_zero, hn, UInt64.ofNat_toNat]

/-- **VarInt is one-to-one**: every number is read back from what is written for it, to the last of as many bytes as its
size says, the buffer is large enough, and there is no other encoding. -/
theorem varInt_oneToOne :
    (∀ n : UInt64, ∃ bytes, writeVarInt n = some bytes ∧ getSizeOfVarInt n = some bytes.length ∧
      Reads readVarInt bytes n ∧ IsVarInt bytes ∧ varIntValue bytes = n.toNat) ∧
    ∀ a, IsVarInt a → varIntValue a < 2 ^ 64 → writeVarInt (.ofNat (varIntValue a)) = some a := by
  constructor
  · intro n
    obtain ⟨bytes, hbytes, hvalue⟩ := exists_isVarInt n.toNat
    obtain ⟨hwrite, hsize, hread⟩ := isVarInt_spec hbytes hvalue
    exact ⟨bytes, hwrite, hsize, hread, hbytes, hvalue⟩
  · intro a ha hlt
    exact (isVarInt_spec ha (UInt64.toNat_ofNat_of_lt' hlt).symm).1

end Sphinx
