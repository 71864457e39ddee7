import Mathlib.Data.Nat.Digits.Lemmas
import Sphinx.Script.Script

/-!
# Pushed integers and printed scripts

`CScript() << n` can be read back from the beginning of a script: `pushInt_prefix_inj` says that no
script starts with the encodings of two different heights.  Heights are `int`s, hence below `2 ^ 31`.

`ToString` prints one word for each instruction (`toString_eq`), and two scripts are printed alike
exactly when their words agree (`toString_inj`).  No comma and no closing parenthesis is ever printed
(`notMem_toString`), so that a script inside another text ends at the first of them.
-/

namespace Sphinx

namespace CScript

/-- The number that little-endian bytes stand for. -/
def ofBytes (bytes : List UInt8) : Nat := Nat.ofDigits 256 (bytes.map UInt8.toNat)

theorem map_toNat_digits (n : Nat) :
    ((Nat.digits 256 n).map UInt8.ofNat).map UInt8.toNat = Nat.digits 256 n := by
  rw [List.map_map]
  conv_rhs => rw [← List.map_id (Nat.digits 256 n)]
  refine List.map_congr_left fun d hd => ?_
  have hlt : d < 256 := Nat.digits_lt_base (by norm_num) hd
  simp [UInt8.toNat_ofNat', Nat.mod_eq_of_lt hlt]

theorem ofBytes_serializeNum (n : Nat) : ofBytes (serializeNum n) = n := by
  have hdigits : Nat.ofDigits 256 (((Nat.digits 256 n).map UInt8.ofNat).map UInt8.toNat) = n := by
    rw [map_toNat_digits, Nat.ofDigits_digits]
  simp only [serializeNum, ofBytes]
  split
  · next hnone =>
    rw [List.getLast?_eq_none_iff] at hnone
    rw [hnone] at hdigits
    exact hdigits
  · split_ifs
    · -- the byte added is zero
      rw [List.map_append, Nat.ofDigits_append, hdigits]
      simp
    · exact hdigits

theorem length_serializeNum_le {n : Nat} (hn : n < 2 ^ 31) : (serializeNum n).length ≤ 5 := by
  have hlen : (Nat.digits 256 n).length ≤ 4 := by
    have hlt : n < 256 ^ 4 := hn.trans (by norm_num)
    exact (Nat.digits_length_le_iff (by norm_num) n).mpr hlt
  simp only [serializeNum]
  split
  · simp
  · split_ifs
    · simp only [List.length_append, List.length_map, List.length_singleton]; omega
    · simp only [List.length_map]; omega

/-- The first byte of the encoding tells the small numbers from the others. -/
theorem pushInt_eq {n : Nat} (hn : n < 2 ^ 31) :
    (1 ≤ n ∧ n ≤ 16 ∧ pushInt n = [UInt8.ofNat (80 + n)]) ∨
      ∃ len bytes, pushInt n = UInt8.ofNat len :: bytes ∧ len ≤ 5 ∧ bytes.length = len ∧
        ofBytes bytes = n := by
  unfold pushInt
  split_ifs with hsmall hzero
  · refine .inl ⟨hsmall.1, hsmall.2, ?_⟩
    rw [show n + (OP_1 - 1) = 80 + n by simp only [OP_1]; omega]
  · exact .inr ⟨0, [], rfl, by omega, rfl, by rw [hzero]; rfl⟩
  · exact .inr ⟨_, _, rfl, length_serializeNum_le hn, rfl, ofBytes_serializeNum n⟩

theorem ofNat_inj {a b : Nat} (ha : a < 256) (hb : b < 256)
    (h : UInt8.ofNat a = UInt8.ofNat b) : a = b := by
  have h' := congrArg UInt8.toNat h
  simpa [UInt8.toNat_ofNat', Nat.mod_eq_of_lt ha, Nat.mod_eq_of_lt hb] using h'

/-- **Heights can be read back**: a script starts with the encoding of at most one height. -/
theorem pushInt_prefix_inj {m n : Nat} {script : CScript} (hm : m < 2 ^ 31) (hn : n < 2 ^ 31)
    (hpm : pushInt m <+: script) (hpn : pushInt n <+: script) : m = n := by
  obtain ⟨sm, rfl⟩ := hpm
  obtain ⟨sn, heq⟩ := hpn
  rcases pushInt_eq hm with ⟨hm1, hm16, hm'⟩ | ⟨lm, bm, hm', hlm, hbm, hvm⟩ <;>
    rcases pushInt_eq hn with ⟨hn1, hn16, hn'⟩ | ⟨ln, bn, hn', hln, hbn, hvn⟩ <;>
    rw [hm', hn'] at heq <;> simp only [List.cons_append, List.cons.injEq] at heq
  · have := ofNat_inj (by omega) (by omega) heq.1
    omega
  · have := ofNat_inj (by omega) (by omega) heq.1
    omega
  · have := ofNat_inj (by omega) (by omega) heq.1
    omega
  · have hlen := ofNat_inj (by omega) (by omega) heq.1
    have hbytes : bn = bm := List.append_inj_left heq.2 (by omega)
    rw [← hvm, ← hvn, hbytes]

/-! ### The words of a printed script -/

open Text

variable {script : CScript}

/-- What `ToString` prints for one instruction. -/
def word (r : GetOpRet) : List Char :=
  if !r.ok then "[error]".toList
  else if r.opcodeRet ≤ OP_PUSHDATA4 then valueString r.vchRet
  else getOpName r.opcodeRet

def wordsLoop : Nat → CScript → List (List Char)
  | 0, _ => []
  | fuel + 1, pc =>
    if pc.isEmpty then []
    else
      let r := getOp2 pc
      if !r.ok then [word r] else word r :: wordsLoop fuel r.pc

/-- The words that `ToString` prints. -/
def words (script : CScript) : List (List Char) := wordsLoop script.length script

/-! ### Reading on -/

theorem getPush_length_le (opcode nSize : Nat) (pc : CScript) :
    (getPush opcode nSize pc).pc.length ≤ pc.length := by
  unfold getPush
  split
  · exact le_refl _
  · exact (List.drop_sublist nSize pc).length_le

theorem getPushData_length_le (opcode nBytes : Nat) (pc : CScript) :
    (getPushData opcode nBytes pc).pc.length ≤ pc.length := by
  unfold getPushData
  split
  · exact le_refl _
  · exact (getPush_length_le _ _ _).trans ((List.drop_sublist nBytes pc).length_le)

theorem getOp2_length_lt (op : UInt8) (pc : CScript) : (getOp2 (op :: pc)).pc.length < (op :: pc).length := by
  rw [List.length_cons, Nat.lt_succ_iff]
  simp only [getOp2]
  split_ifs
  · exact getPush_length_le _ _ _
  · exact getPushData_length_le _ _ _
  · exact getPushData_length_le _ _ _
  · exact getPushData_length_le _ _ _
  · exact le_refl _

/-! ### Words -/

/-- Not empty, and without blank, comma and closing parenthesis. -/
def IsWord (w : List Char) : Prop := w ≠ [] ∧ ∀ c ∈ w, c ∉ [' ', ',', ')']

instance (w : List Char) : Decidable (IsWord w) := @instDecidableAnd _ _ _ (List.decidableBAll _ w)

theorem isWord_opNames : ∀ name ∈ opNames, IsWord name.toList := by decide +kernel

theorem isWord_getOpName (opcode : Nat) : IsWord (getOpName opcode) := by
  unfold getOpName
  split_ifs
  · decide
  · decide
  · decide
  · rw [List.getD_eq_getElem?_getD]
    cases hname : opNames[opcode - OP_PUSHDATA1]? with
    | none => exact (by decide : IsWord "OP_UNKNOWN".toList)
    | some name => exact isWord_opNames name (List.mem_of_getElem? hname)

theorem notMem_delimiters {c : Char} (hc : c.isAlphanum = true) : c ∉ [' ', ',', ')'] := by
  intro hmem
  simp only [List.mem_cons, List.not_mem_nil, or_false] at hmem
  rcases hmem with rfl | rfl | rfl
  · exact absurd hc (by decide)
  · exact absurd hc (by decide)
  · exact absurd hc (by decide)

theorem isWord_decimal (x : Int) : IsWord (decimal x) := by
  refine ⟨decimal_ne_nil x, fun c hc hmem => ?_⟩
  rcases mem_decimal hc with rfl | hdigit
  · exact absurd hmem (by decide)
  · exact notMem_delimiters (by simp [Char.isAlphanum, hdigit]) hmem

theorem isWord_hexBytes {bytes : List UInt8} (h : bytes ≠ []) : IsWord (hexBytes bytes) := by
  constructor
  · intro hnil
    exact h (hexBytes_inj.mp (hnil.trans (rfl : [] = hexBytes [])))
  · intro c hc
    obtain ⟨b, -, hb⟩ := List.mem_flatMap.mp hc
    exact notMem_delimiters (isAlphanum_of_mem_hexDigits hb)

theorem isWord_valueString (vch : List UInt8) : IsWord (valueString vch) := by
  unfold valueString
  split_ifs with hlen
  · exact isWord_decimal _
  · refine isWord_hexBytes ?_
    rintro rfl
    exact hlen (Nat.zero_le 4)

theorem isWord_word (r : GetOpRet) : IsWord (word r) := by
  unfold word
  split_ifs
  · decide
  · exact isWord_valueString _
  · exact isWord_getOpName _

theorem isWord_of_mem_words {w : List Char} (hw : w ∈ words script) : IsWord w := by
  suffices hloop : ∀ fuel pc, w ∈ wordsLoop fuel pc → IsWord w from hloop _ _ hw
  intro fuel
  induction fuel with
  | zero => exact fun pc hmem => nomatch hmem
  | succ fuel ih =>
    intro pc hmem
    simp only [wordsLoop] at hmem
    split_ifs at hmem
    · cases hmem
    · rw [List.mem_singleton.mp hmem]
      exact isWord_word _
    · rcases List.mem_cons.mp hmem with rfl | hlater
      · exact isWord_word _
      · exact ih _ hlater

/-! ### The text -/

theorem append_word (ws : List (List Char)) (h : ∀ w ∈ ws, IsWord w) (w : List Char) :
    (if ([' '].intercalate ws).isEmpty then [' '].intercalate ws else [' '].intercalate ws ++ [' ']) ++ w =
      [' '].intercalate (ws ++ [w]) := by
  have hnil := @intercalate_eq_nil ' ' ws fun v hv => (h v hv).1
  by_cases hws : ws = []
  · simp [hws]
  · have hprinted : ([' '].intercalate ws).isEmpty = false := by
      rw [List.isEmpty_eq_false_iff]
      exact fun hempty => hws (hnil.mp hempty)
    rw [hprinted, intercalate_concat hws]
    simp

theorem toStringLoop_eq (fuel : Nat) {ws : List (List Char)} (h : ∀ w ∈ ws, IsWord w) (pc : CScript) :
    toStringLoop fuel ([' '].intercalate ws) pc = [' '].intercalate (ws ++ wordsLoop fuel pc) := by
  induction fuel generalizing ws pc with
  | zero => rw [wordsLoop, List.append_nil]; rfl
  | succ fuel ih =>
    have hmore : ∀ r : GetOpRet, ∀ w ∈ ws ++ [word r], IsWord w := by
      intro r w hw
      rcases List.mem_append.mp hw with hold | hnew
      · exact h w hold
      · rw [List.mem_singleton.mp hnew]
        exact isWord_word r
    have hgo : ∀ r : GetOpRet, toStringLoop fuel ([' '].intercalate (ws ++ [word r])) r.pc =
        [' '].intercalate (ws ++ word r :: wordsLoop fuel r.pc) := by
      intro r
      rw [ih (hmore r), List.append_assoc, List.singleton_append]
    simp only [toStringLoop, wordsLoop]
    by_cases hend : pc.isEmpty
    · rw [if_pos hend, if_pos hend, List.append_nil]
    rw [if_neg hend, if_neg hend]
    by_cases hfail : !(getOp2 pc).ok
    · rw [if_pos hfail, if_pos hfail, ← append_word ws h, word, if_pos hfail]
    rw [if_neg hfail, if_neg hfail, ← hgo, ← append_word ws h]
    by_cases hpush : (getOp2 pc).opcodeRet ≤ OP_PUSHDATA4
    · rw [if_pos hpush, word, if_neg hfail, if_pos hpush]
    · rw [if_neg hpush, word, if_neg hfail, if_neg hpush]

/-- **A script is printed word by word**, with a blank between two of them. -/
theorem toString_eq (script : CScript) : script.toString = [' '].intercalate script.words :=
  @toStringLoop_eq script.length [] (fun _ hw => nomatch hw) script

/-- **Scripts with the same text have the same words.** -/
theorem toString_inj {script' : CScript} :
    script.toString = script'.toString ↔ script.words = script'.words := by
  rw [toString_eq, toString_eq]
  refine intercalate_inj (fun w hw => ?_) fun w hw => ?_
  · exact ⟨(isWord_of_mem_words hw).1, fun hmem => (isWord_of_mem_words hw).2 _ hmem (by decide)⟩
  · exact ⟨(isWord_of_mem_words hw).1, fun hmem => (isWord_of_mem_words hw).2 _ hmem (by decide)⟩

theorem notMem_toString {c : Char} (hc : c ∈ script.toString) : c ≠ ',' ∧ c ≠ ')' := by
  rw [toString_eq] at hc
  rcases mem_intercalate hc with rfl | ⟨w, hw, hcw⟩
  · decide
  · have hword := (isWord_of_mem_words hw).2 c hcw
    constructor
    · rintro rfl
      exact hword (by decide)
    · rintro rfl
      exact hword (by decide)

end CScript

end Sphinx
