import Sphinx.Script.Sign
import Sphinx.Script.Equiv.Script

/-!
# What `Solver` recognises

The instructions of a script of each standard type (`standardScript_of_solver`).  A template is compared one
opcode at a time, so there is one lemma for each kind of opcode and one for each template.
-/

namespace Sphinx

/-! ### Instructions -/

namespace CScript

variable {pc rest : CScript} {op : Nat} {vch : Valtype} {instrs : List (Nat × Valtype)} {pc2 : List Nat}
  {r : GetOpRet}

/-- The bytes from `pc` on are these instructions, each an opcode and the bytes it pushes. -/
inductive Reads : CScript → List (Nat × Valtype) → Prop
  | nil : Reads [] []
  | cons {pc rest : CScript} {op : Nat} {vch : Valtype} {instrs : List (Nat × Valtype)} :
      getOp2 pc = ⟨true, op, vch, rest⟩ → Reads rest instrs → Reads pc ((op, vch) :: instrs)

theorem getOp2_isSome (h : getOp2 pc = ⟨true, op, vch, rest⟩) :
    rest.length < pc.length := by
  cases pc with
  | nil => cases h
  | cons b pc =>
    have hlt := getOp2_length_lt b pc
    rwa [h] at hlt

theorem Reads.length_le (h : Reads pc instrs) :
    instrs.length ≤ pc.length := by
  induction h with
  | nil => exact Nat.zero_le _
  | cons hread _ ih =>
    have := getOp2_isSome hread
    rw [List.length_cons]
    omega

/-- As many rounds as the script has bytes are enough for its instructions. -/
theorem Reads.exists_fuel (h : Reads pc instrs) :
    ∃ fuel, pc.length = fuel + instrs.length :=
  ⟨pc.length - instrs.length, by have := h.length_le; omega⟩

theorem getPush_ok {opcode nSize : Nat} (h : getPush opcode nSize pc = ⟨true, op, vch, rest⟩) :
    op = opcode := by
  unfold getPush at h
  split at h
  · cases h
  · cases h
    rfl

theorem getPushData_ok {opcode nBytes : Nat} (h : getPushData opcode nBytes pc = ⟨true, op, vch, rest⟩) :
    op = opcode := by
  unfold getPushData at h
  split at h
  · cases h
  · exact getPush_ok h

theorem getOp2_push_or (h : getOp2 pc = ⟨true, op, vch, rest⟩) : op ≤ OP_PUSHDATA4 ∨ vch = [] := by
  cases pc with
  | nil => cases h
  | cons b pc =>
    unfold getOp2 at h
    dsimp only at h
    split_ifs at h with h1 h2 h3 h4
    · left
      rw [getPush_ok h]
      exact h1.le.trans (by decide)
    · left
      rw [getPushData_ok h, h2]
      decide
    · left
      rw [getPushData_ok h, h3]
      decide
    · left
      rw [getPushData_ok h, h4]
    · cases h
      exact .inr rfl

theorem isPush_of_size {n : Nat} (h : getOp2 pc = ⟨true, op, vch, rest⟩) (hlen : n < vch.length) :
    op ≤ OP_PUSHDATA4 := by
  rcases getOp2_push_or h with hop | rfl
  · exact hop
  · cases hlen

/-! ### What `Solver` recognises -/

/-- A script of a standard type, with its solutions. -/
inductive StandardScript (script : CScript) : Txnouttype → List Valtype → Prop
  | pubkey {op : Nat} {vchPubKey : Valtype} : Reads script [(op, vchPubKey), (OP_CHECKSIG, [])] →
      isPubKeySize vchPubKey = true → StandardScript script .pubkey [vchPubKey]
  | pubkeyhash {op : Nat} {keyID : Valtype} :
      Reads script [(OP_DUP, []), (OP_HASH160, []), (op, keyID), (OP_EQUALVERIFY, []), (OP_CHECKSIG, [])] →
      keyID.length = 20 → StandardScript script .pubkeyhash [keyID]
  | scripthash : script.isPayToScriptHash = true →
      StandardScript script .scripthash [(script.drop 2).take 20]
  | multisig {m n : Nat} {keys : List (Nat × Valtype)} :
      Reads script ((OP_1 - 1 + m, []) :: (keys ++ [(OP_1 - 1 + n, []), (OP_CHECKMULTISIG, [])])) →
      (∀ key ∈ keys, isPubKeySize key.2 = true) → keys.length = n → 1 ≤ m → m ≤ n → n ≤ 16 →
      StandardScript script .multisig ([UInt8.ofNat m] :: (keys.map Prod.snd ++ [[UInt8.ofNat n]]))
  | nullData : StandardScript script .nullData []

section Solver

variable {script pc1 : CScript} {vSolutions vSolutions' : List Valtype}

theorem getOp2_eq_of_ok (h : (getOp2 pc).ok = true) :
    getOp2 pc = ⟨true, (getOp2 pc).opcodeRet, (getOp2 pc).vchRet, (getOp2 pc).pc⟩ := by
  cases hr : getOp2 pc with
  | mk ok op vch rest =>
    rw [hr] at h
    cases h
    rfl

theorem getPush_failed {opcode nSize : Nat} (h : (getPush opcode nSize pc).ok = false) :
    (getPush opcode nSize pc).opcodeRet = OP_INVALIDOPCODE := by
  unfold getPush at h ⊢
  split
  · rfl
  · next hlt =>
    rw [if_neg hlt] at h
    cases h

theorem getPushData_failed {opcode nBytes : Nat} (h : (getPushData opcode nBytes pc).ok = false) :
    (getPushData opcode nBytes pc).opcodeRet = OP_INVALIDOPCODE := by
  unfold getPushData at h ⊢
  split
  · rfl
  · next hlt =>
    rw [if_neg hlt] at h
    exact getPush_failed h

theorem getOp2_failed (h : (getOp2 pc).ok = false) :
    (getOp2 pc).opcodeRet = OP_INVALIDOPCODE := by
  cases pc with
  | nil => rfl
  | cons b pc =>
    unfold getOp2 at h ⊢
    dsimp only at h ⊢
    split_ifs at h ⊢
    · exact getPush_failed h
    · exact getPushData_failed h
    · exact getPushData_failed h
    · exact getPushData_failed h

/-- One opcode of a template other than `OP_PUBKEYS`. -/
theorem matchTemplate_cons {opcode2 : Nat} (hne : opcode2 ≠ OP_PUBKEYS)
    (h : matchTemplate (opcode2 :: pc2) pc1 vSolutions = some vSolutions') :
    ∃ op vch rest vSolutions1, getOp2 pc1 = ⟨true, op, vch, rest⟩ ∧
      matchOpcode ⟨true, op, vch, rest⟩ opcode2 vSolutions = some vSolutions1 ∧
      matchTemplate pc2 rest vSolutions1 = some vSolutions' := by
  unfold matchTemplate at h
  dsimp only at h
  cases hok : (getOp2 pc1).ok with
  | false =>
    rw [hok] at h
    cases h
  | true =>
    rw [hok, if_neg (by decide), if_neg hne, Option.bind_eq_some_iff] at h
    obtain ⟨vSolutions1, hmatch, hrest⟩ := h
    have hread := getOp2_eq_of_ok hok
    rw [hread] at hmatch
    exact ⟨_, _, _, vSolutions1, hread, hmatch, hrest⟩

theorem matchTemplate_nil (h : matchTemplate [] pc1 vSolutions = some vSolutions') :
    pc1 = [] ∧ vSolutions' = vSolutions := by
  unfold matchTemplate at h
  split at h
  · next hnil => exact ⟨List.isEmpty_iff.mp hnil, (Option.some.inj h).symm⟩
  · cases h

theorem matchOpcode_exact {opcode2 : Nat} (hlt : opcode2 < OP_SMALLDATA)
    (h : matchOpcode r opcode2 vSolutions = some vSolutions') :
    r.opcodeRet = opcode2 ∧ r.vchRet = [] ∧ vSolutions' = vSolutions := by
  unfold matchOpcode at h
  rw [OP_SMALLDATA] at hlt
  rw [if_neg (by rw [OP_PUBKEY]; omega), if_neg (by rw [OP_PUBKEYHASH]; omega),
    if_neg (by rw [OP_SMALLINTEGER]; omega), if_neg (by rw [OP_SMALLDATA]; omega)] at h
  split at h
  · cases h
  · next heq =>
    push Not at heq
    exact ⟨heq.1, heq.2, (Option.some.inj h).symm⟩

theorem matchTemplate_exact {opcode2 : Nat} (hlt : opcode2 < OP_SMALLDATA)
    (h : matchTemplate (opcode2 :: pc2) pc1 vSolutions = some vSolutions') :
    ∃ rest, getOp2 pc1 = ⟨true, opcode2, [], rest⟩ ∧ matchTemplate pc2 rest vSolutions = some vSolutions' := by
  have hne : opcode2 ≠ OP_PUBKEYS := (hlt.trans (by decide)).ne
  obtain ⟨op, vch, rest, sol1, hread, hmatch, hrest⟩ := matchTemplate_cons hne h
  obtain ⟨rfl, rfl, rfl⟩ := matchOpcode_exact hlt hmatch
  exact ⟨rest, hread, hrest⟩

theorem matchOpcode_pubkey (h : matchOpcode r OP_PUBKEY vSolutions = some vSolutions') :
    isPubKeySize r.vchRet = true ∧ vSolutions' = vSolutions ++ [r.vchRet] := by
  unfold matchOpcode at h
  rw [if_pos rfl] at h
  split at h
  · next hsize => exact ⟨hsize, (Option.some.inj h).symm⟩
  · cases h

theorem matchOpcode_pubkeyhash (h : matchOpcode r OP_PUBKEYHASH vSolutions = some vSolutions') :
    r.vchRet.length = 20 ∧ vSolutions' = vSolutions ++ [r.vchRet] := by
  unfold matchOpcode at h
  rw [if_neg (by decide), if_pos rfl] at h
  split at h
  · next hsize => exact ⟨hsize, (Option.some.inj h).symm⟩
  · cases h

theorem matchOpcode_smallinteger (h : matchOpcode r OP_SMALLINTEGER vSolutions = some vSolutions') :
    (r.opcodeRet = OP_0 ∨ (OP_1 ≤ r.opcodeRet ∧ r.opcodeRet ≤ OP_16)) ∧
      vSolutions' = vSolutions ++ [[UInt8.ofNat (decodeOpN r.opcodeRet)]] := by
  unfold matchOpcode at h
  rw [if_neg (by decide), if_neg (by decide), if_pos rfl] at h
  split at h
  · next hop => exact ⟨hop, (Option.some.inj h).symm⟩
  · cases h

/-- The loop at `OP_PUBKEYS` takes instructions of the size of a public key. -/
theorem takePubKeys_reads : ∀ (fuel : Nat) {pc : CScript} (vSolutions : List Valtype),
    (getOp2 pc).ok = true → ∃ keys pc', takePubKeys fuel (getOp2 pc) vSolutions =
        (getOp2 pc', vSolutions ++ keys.map Prod.snd) ∧ (∀ key ∈ keys, isPubKeySize key.2 = true) ∧
      ∀ instrs, Reads pc' instrs → Reads pc (keys ++ instrs) := by
  intro fuel
  induction fuel with
  | zero =>
    intro pc vSolutions _
    exact ⟨[], pc, by simp [takePubKeys], fun _ h => (nomatch h), fun _ h => h⟩
  | succ fuel ih =>
    intro pc vSolutions hok
    have hread := getOp2_eq_of_ok hok
    rw [takePubKeys]
    split
    · next hsize =>
      have hone : ∀ instrs, Reads (getOp2 pc).pc instrs →
          Reads pc (((getOp2 pc).opcodeRet, (getOp2 pc).vchRet) :: instrs) :=
        fun _ h => .cons hread h
      dsimp only
      split
      · next hok' =>
        obtain ⟨keys, pc', htake, hkeys, hreads⟩ := ih (vSolutions ++ [(getOp2 pc).vchRet]) hok'
        refine ⟨((getOp2 pc).opcodeRet, (getOp2 pc).vchRet) :: keys, pc', ?_, ?_,
          fun instrs h => hone _ (hreads instrs h)⟩
        · rw [htake, List.map_cons, List.append_assoc, List.singleton_append]
        · exact List.forall_mem_cons.mpr ⟨hsize, hkeys⟩
      · refine ⟨[((getOp2 pc).opcodeRet, (getOp2 pc).vchRet)], (getOp2 pc).pc, rfl, ?_, hone⟩
        exact List.forall_mem_singleton.mpr hsize
    · exact ⟨[], pc, by rw [List.map_nil, List.append_nil], fun _ h => (nomatch h), fun _ h => h⟩

/-- `OP_PUBKEYS` and the small integer after it. -/
theorem matchTemplate_pubkeys
    (h : matchTemplate (OP_PUBKEYS :: OP_SMALLINTEGER :: pc2) pc1 vSolutions = some vSolutions') :
    ∃ (keys : List (Nat × Valtype)) (pc' : CScript) (op : Nat) (vch : Valtype) (rest : CScript),
      (∀ key ∈ keys, isPubKeySize key.2 = true) ∧
        (∀ instrs, Reads pc' instrs → Reads pc1 (keys ++ instrs)) ∧
      getOp2 pc' = ⟨true, op, vch, rest⟩ ∧ (op = OP_0 ∨ (OP_1 ≤ op ∧ op ≤ OP_16)) ∧
      matchTemplate pc2 rest (vSolutions ++ keys.map Prod.snd ++ [[UInt8.ofNat (decodeOpN op)]]) =
        some vSolutions' := by
  unfold matchTemplate at h
  dsimp only at h
  cases hok : (getOp2 pc1).ok with
  | false =>
    rw [hok] at h
    cases h
  | true =>
    obtain ⟨keys, pc', htake, hkeys, hreads⟩ := takePubKeys_reads pc1.length vSolutions hok
    rw [hok, if_neg (by decide), if_pos rfl, htake, Option.bind_eq_some_iff] at h
    obtain ⟨vSolutions1, hmatch, hrest⟩ := h
    obtain ⟨hop, rfl⟩ := matchOpcode_smallinteger hmatch
    have hok' : (getOp2 pc').ok = true := by
      by_contra hfailed
      rw [getOp2_failed (Bool.eq_false_iff.mpr hfailed)] at hop
      exact absurd hop (by decide)
    exact ⟨keys, pc', _, _, _, hkeys, hreads, getOp2_eq_of_ok hok', hop, hrest⟩

theorem reads_pubkey (h : matchTemplate [OP_PUBKEY, OP_CHECKSIG] script [] = some vSolutions) :
    StandardScript script .pubkey vSolutions := by
  obtain ⟨op, vch, rest, sol1, hread1, hmatch1, h⟩ := matchTemplate_cons (by decide) h
  obtain ⟨hsize, rfl⟩ := matchOpcode_pubkey hmatch1
  obtain ⟨rest2, hread2, h⟩ := matchTemplate_exact (by decide) h
  obtain ⟨rfl, rfl⟩ := matchTemplate_nil h
  exact .pubkey (.cons hread1 (.cons hread2 .nil)) hsize

theorem reads_pubkeyhash
    (h : matchTemplate [OP_DUP, OP_HASH160, OP_PUBKEYHASH, OP_EQUALVERIFY, OP_CHECKSIG] script [] =
      some vSolutions) :
    StandardScript script .pubkeyhash vSolutions := by
  obtain ⟨rest1, hread1, h⟩ := matchTemplate_exact (by decide) h
  obtain ⟨rest2, hread2, h⟩ := matchTemplate_exact (by decide) h
  obtain ⟨op3, vch3, rest3, sol3, hread3, hmatch3, h⟩ := matchTemplate_cons (by decide) h
  obtain ⟨hsize, rfl⟩ := matchOpcode_pubkeyhash hmatch3
  obtain ⟨rest4, hread4, h⟩ := matchTemplate_exact (by decide) h
  obtain ⟨rest5, hread5, h⟩ := matchTemplate_exact (by decide) h
  obtain ⟨rfl, rfl⟩ := matchTemplate_nil h
  exact .pubkeyhash (.cons hread1 (.cons hread2 (.cons hread3 (.cons hread4 (.cons hread5 .nil))))) hsize

/-- The number that a small-integer opcode pushes, if it is not zero. -/
theorem smallinteger_eq (h : getOp2 pc = ⟨true, op, vch, rest⟩)
    (hop : op = OP_0 ∨ (OP_1 ≤ op ∧ op ≤ OP_16)) (hpos : 1 ≤ decodeOpN op) :
    op = OP_1 - 1 + decodeOpN op ∧ decodeOpN op ≤ 16 ∧ vch = [] := by
  rcases hop with rfl | ⟨hlow, hhigh⟩
  · cases hpos
  · rw [OP_1] at hlow
    rw [OP_16] at hhigh
    have hdecode : decodeOpN op = op - (OP_1 - 1) := by
      unfold decodeOpN
      rw [if_neg (by rw [OP_0]; omega)]
    have hvch := getOp2_push_or h
    rw [OP_PUSHDATA4] at hvch
    rw [hdecode, OP_1]
    exact ⟨by omega, by omega, hvch.resolve_left (by omega)⟩

theorem reads_multisig
    (h : matchTemplate [OP_SMALLINTEGER, OP_PUBKEYS, OP_SMALLINTEGER, OP_CHECKMULTISIG] script [] =
      some vSolutions) (hcheck : checkMultisig vSolutions = true) :
    StandardScript script .multisig vSolutions := by
  obtain ⟨op1, vch1, rest1, sol1, hread1, hmatch1, h⟩ := matchTemplate_cons (by decide) h
  obtain ⟨hop1, rfl⟩ := matchOpcode_smallinteger hmatch1
  obtain ⟨keys, pc', op2, vch2, rest2, hkeys, hreads, hread2, hop2, h⟩ := matchTemplate_pubkeys h
  obtain ⟨rest3, hread3, h⟩ := matchTemplate_exact (by decide) h
  dsimp only at hop1
  obtain ⟨rfl, rfl⟩ := matchTemplate_nil h
  have hbyte : ∀ op, (op = OP_0 ∨ (OP_1 ≤ op ∧ op ≤ OP_16)) →
      (UInt8.ofNat (decodeOpN op)).toNat = decodeOpN op := by
    intro op hop
    refine UInt8.toNat_ofNat_of_lt (show decodeOpN op < 256 from ?_)
    rw [OP_0, OP_1, OP_16] at hop
    unfold decodeOpN
    rw [OP_0, OP_1]
    split_ifs <;> omega
  simp only [checkMultisig, List.nil_append, List.cons_append, List.headD_cons,
    List.getLastD_cons, List.getLastD_concat, hbyte _ hop1, hbyte _ hop2, List.length_cons,
    List.length_append, List.length_map, List.length_nil, Bool.not_eq_true', Bool.or_eq_false_iff,
    decide_eq_false_iff_not, not_lt, ne_eq, not_not] at hcheck
  obtain ⟨⟨⟨hm, hn⟩, hmn⟩, hlen⟩ := hcheck
  obtain ⟨hop1', -, rfl⟩ := smallinteger_eq hread1 hop1 hm
  obtain ⟨hop2', hle, rfl⟩ := smallinteger_eq hread2 hop2 hn
  refine .multisig (m := decodeOpN op1) (n := decodeOpN op2) ?_ hkeys (by omega) hm hmn hle
  rw [← hop1', ← hop2']
  exact .cons hread1 (hreads _ (.cons hread2 (.cons hread3 .nil)))

theorem matchOpcode_smalldata (h : matchOpcode r OP_SMALLDATA vSolutions = some vSolutions') :
    vSolutions' = vSolutions := by
  unfold matchOpcode at h
  rw [if_neg (by decide), if_neg (by decide), if_neg (by decide), if_pos rfl] at h
  split at h
  · cases h
  · exact (Option.some.inj h).symm

theorem matchTemplate_return (hpc2 : pc2 = [OP_SMALLDATA] ∨ pc2 = [])
    (h : matchTemplate (OP_RETURN :: pc2) script [] = some vSolutions) : vSolutions = [] := by
  obtain ⟨rest1, -, h⟩ := matchTemplate_exact (by decide) h
  rcases hpc2 with rfl | rfl
  · obtain ⟨op2, vch2, rest2, sol2, -, hmatch2, h⟩ := matchTemplate_cons (by decide) h
    obtain rfl := matchOpcode_smalldata hmatch2
    exact (matchTemplate_nil h).2
  · exact (matchTemplate_nil h).2

/-- The scan ends with the first template that matches. -/
theorem scanTemplates_cons {typeRet whichType : Txnouttype} {script2 : List Nat}
    {templates : List (Txnouttype × List Nat)}
    (h : scanTemplates script ((typeRet, script2) :: templates) = some (whichType, vSolutions)) :
    (matchTemplate script2 script [] = some vSolutions ∧ whichType = typeRet ∧
      (typeRet = .multisig → checkMultisig vSolutions = true)) ∨
    scanTemplates script templates = some (whichType, vSolutions) := by
  unfold scanTemplates at h
  cases hmatch : matchTemplate script2 script [] with
  | none =>
    rw [hmatch] at h
    exact .inr h
  | some vSolutions1 =>
    rw [hmatch] at h
    dsimp only at h
    split at h
    · cases h
    · next hcheck =>
      cases h
      refine .inl ⟨rfl, rfl, fun htype => ?_⟩
      subst htype
      simpa using hcheck

theorem standardScript_of_solver {whichType : Txnouttype} (h : solver script = some (whichType, vSolutions)) :
    StandardScript script whichType vSolutions := by
  unfold solver at h
  split at h
  · next hp2sh =>
    cases h
    exact .scripthash hp2sh
  · rcases scanTemplates_cons h with ⟨hmatch, rfl, -⟩ | h
    · exact reads_pubkey hmatch
    rcases scanTemplates_cons h with ⟨hmatch, rfl, -⟩ | h
    · exact reads_pubkeyhash hmatch
    rcases scanTemplates_cons h with ⟨hmatch, rfl, hcheck⟩ | h
    · exact reads_multisig hmatch (hcheck rfl)
    rcases scanTemplates_cons h with ⟨hmatch, rfl, -⟩ | h
    · rw [matchTemplate_return (.inl rfl) hmatch]
      exact .nullData
    rcases scanTemplates_cons h with ⟨hmatch, rfl, -⟩ | h
    · rw [matchTemplate_return (.inr rfl) hmatch]
      exact .nullData
    · cases h

end Solver

end CScript

end Sphinx
