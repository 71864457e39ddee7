import Sphinx.Script.Standard
import Sphinx.Script.Equiv.StandardScripts

/-!
# Exactly which scripts `Solver` recognises

A script is compared through its instructions, which its bytes determine (`Reads.unique`): there is one `iff`
for each template, and two templates cannot both match.

* `solverExact_iff`: `Solver` is exact unless the script is a multisig script with wrong numbers, for which it
  leaves the type and the solutions behind, or `OP_RETURN` with an opcode that is no push;
* `solver_recovers`: what `GetScriptForDestination`, `GetScriptForRawPubKey` and `GetScriptForMultisig` put
  into a script is read back;
* `isNormalPaymentScript_iff`: `IsNormalPaymentScript` is true for the pay-to-pubkey-hash scripts, and for those
  whose third instruction is another one that is read up to their end.
-/

namespace Sphinx

namespace CScript

variable {pc : CScript} {instrs : List (Nat × Valtype)} {opcode2 : Nat} {script2 : List Nat}
  {key : Valtype}
variable {n : Nat}

/-! ### Instructions -/

theorem Reads.unique (h : Reads pc instrs) :
    ∀ {instrs' : List (Nat × Valtype)}, Reads pc instrs' → instrs = instrs' := by
  induction h with
  | nil =>
    intro instrs' h'
    cases h' with
    | nil => rfl
    | cons hread _ => cases hread
  | cons hread _ ih =>
    intro instrs' h'
    cases h' with
    | nil => cases hread
    | cons hread' hrest' =>
      obtain ⟨-, rfl, rfl, rfl⟩ := GetOpRet.mk.inj (hread.symm.trans hread')
      rw [ih hrest']

theorem Reads.head {instr : Nat × Valtype} (h : Reads pc (instr :: instrs)) :
    ∃ rest, getOp2 pc = ⟨true, instr.1, instr.2, rest⟩ ∧ Reads rest instrs := by
  cases h with
  | cons hread hreads => exact ⟨_, hread, hreads⟩

theorem Reads.ok (h : Reads pc instrs) (hne : instrs ≠ []) :
    (getOp2 pc).ok = true := by
  cases h with
  | nil => exact absurd rfl hne
  | cons hread _ => rw [hread]

/-- The opcode of a small integer. -/
def smallOp (n : Nat) : Nat := if n = 0 then OP_0 else OP_1 - 1 + n

theorem smallOp_le (h : n ≤ 16) : smallOp n ≤ OP_16 := by
  unfold smallOp
  rw [OP_0, OP_1, OP_16]
  split_ifs <;> omega

theorem decodeOpN_smallOp (n : Nat) : decodeOpN (smallOp n) = n := by
  unfold decodeOpN smallOp
  rw [OP_0, OP_1]
  split_ifs with h1 h2 <;> omega

theorem smallOp_of_smallinteger {op : Nat} (hop : op = OP_0 ∨ (OP_1 ≤ op ∧ op ≤ OP_16)) :
    op = smallOp (decodeOpN op) ∧ decodeOpN op ≤ 16 := by
  unfold decodeOpN smallOp
  rw [OP_0, OP_1, OP_16] at *
  split_ifs <;> omega

theorem smallinteger_smallOp (h : n ≤ 16) :
    smallOp n = OP_0 ∨ (OP_1 ≤ smallOp n ∧ smallOp n ≤ OP_16) := by
  unfold smallOp
  rw [OP_0, OP_1, OP_16]
  split_ifs <;> omega

theorem vch_of_smallinteger {rest : CScript} {op : Nat} {vch : Valtype}
    (h : getOp2 pc = ⟨true, op, vch, rest⟩) (hop : op = OP_0 ∨ (OP_1 ≤ op ∧ op ≤ OP_16)) : vch = [] := by
  rcases hop with rfl | ⟨hlo, _⟩
  · cases pc with
    | nil => cases h
    | cons b pc =>
      unfold getOp2 at h
      dsimp only at h
      split_ifs at h with h1 h2 h3 h4
      · have hb : OP_0 = b.toNat := getPush_ok h
        rw [← hb, getPush, if_neg (by rw [OP_0]; omega)] at h
        exact (GetOpRet.mk.inj h).2.2.1.symm
      · exact absurd (getPushData_ok h) (by rw [h2]; decide)
      · exact absurd (getPushData_ok h) (by rw [h3]; decide)
      · exact absurd (getPushData_ok h) (by rw [h4]; decide)
      · exact (GetOpRet.mk.inj h).2.2.1.symm
  · refine (getOp2_push_or h).resolve_left fun hle => ?_
    rw [OP_PUSHDATA4] at hle
    rw [OP_1] at hlo
    omega

/-! ### The templates -/

section Templates

variable {script pc1 rest : CScript} {op : Nat} {vch : Valtype} {vSolutions vSolutions1 vSolutions' : List Valtype}

theorem matchTemplate_read {pc2 : List Nat} (hne : opcode2 ≠ OP_PUBKEYS)
    (hread : getOp2 pc1 = ⟨true, op, vch, rest⟩)
    (hmatch : matchOpcode ⟨true, op, vch, rest⟩ opcode2 vSolutions = some vSolutions1) :
    matchTemplate (opcode2 :: pc2) pc1 vSolutions = matchTemplate pc2 rest vSolutions1 := by
  rw [matchTemplate, hread]
  dsimp only
  rw [if_neg (by decide), if_neg hne, hmatch, Option.bind_some]

theorem matchOpcode_self (hlt : opcode2 < OP_SMALLDATA) :
    matchOpcode ⟨true, opcode2, [], rest⟩ opcode2 vSolutions = some vSolutions := by
  unfold matchOpcode
  rw [OP_SMALLDATA] at hlt
  rw [if_neg (by rw [OP_PUBKEY]; omega), if_neg (by rw [OP_PUBKEYHASH]; omega),
    if_neg (by rw [OP_SMALLINTEGER]; omega), if_neg (by rw [OP_SMALLDATA]; omega), if_neg (by simp)]

theorem matchTemplate_self {pc2 : List Nat} (hlt : opcode2 < OP_SMALLDATA)
    (hread : getOp2 pc1 = ⟨true, opcode2, [], rest⟩) :
    matchTemplate (opcode2 :: pc2) pc1 vSolutions = matchTemplate pc2 rest vSolutions :=
  matchTemplate_read (by rw [OP_PUBKEYS]; rw [OP_SMALLDATA] at hlt; omega) hread (matchOpcode_self hlt)

theorem matchTemplate_pubkey_iff :
    matchTemplate [OP_PUBKEY, OP_CHECKSIG] script [] = some vSolutions ↔
      ∃ op vch, Reads script [(op, vch), (OP_CHECKSIG, [])] ∧ isPubKeySize vch = true ∧ vSolutions = [vch] := by
  constructor
  · intro h
    cases reads_pubkey h with
    | pubkey hreads hsize => exact ⟨_, _, hreads, hsize, rfl⟩
  · rintro ⟨op, vch, hreads, hsize, rfl⟩
    cases hreads with
    | cons hread1 hreads =>
      cases hreads with
      | cons hread2 hreads =>
        cases hreads
        rw [matchTemplate_read (by decide) hread1 (by unfold matchOpcode; rw [if_pos rfl, if_pos hsize]),
          matchTemplate_self (by decide) hread2]
        rfl

theorem matchTemplate_pubkeyhash_iff :
    matchTemplate [OP_DUP, OP_HASH160, OP_PUBKEYHASH, OP_EQUALVERIFY, OP_CHECKSIG] script [] = some vSolutions ↔
      ∃ op keyID, Reads script [(OP_DUP, []), (OP_HASH160, []), (op, keyID), (OP_EQUALVERIFY, []),
        (OP_CHECKSIG, [])] ∧ keyID.length = 20 ∧ vSolutions = [keyID] := by
  constructor
  · intro h
    cases reads_pubkeyhash h with
    | pubkeyhash hreads hsize => exact ⟨_, _, hreads, hsize, rfl⟩
  · rintro ⟨op, keyID, hreads, hsize, rfl⟩
    cases hreads with
    | cons hread1 hreads =>
    cases hreads with
    | cons hread2 hreads =>
    cases hreads with
    | cons hread3 hreads =>
    cases hreads with
    | cons hread4 hreads =>
    cases hreads with
    | cons hread5 hreads =>
    cases hreads
    rw [matchTemplate_self (by decide) hread1, matchTemplate_self (by decide) hread2,
      matchTemplate_read (by decide) hread3
        (by unfold matchOpcode; rw [if_neg (by decide), if_pos rfl, if_pos hsize]),
      matchTemplate_self (by decide) hread4, matchTemplate_self (by decide) hread5]
    rfl

theorem matchTemplate_return_iff :
    matchTemplate [OP_RETURN] script [] = some vSolutions ↔ Reads script [(OP_RETURN, [])] ∧ vSolutions = [] := by
  constructor
  · intro h
    obtain ⟨rest1, hread1, h⟩ := matchTemplate_exact (by decide) h
    obtain ⟨rfl, rfl⟩ := matchTemplate_nil h
    exact ⟨.cons hread1 .nil, rfl⟩
  · rintro ⟨hreads, rfl⟩
    cases hreads with
    | cons hread1 hreads =>
      cases hreads
      rw [matchTemplate_self (by decide) hread1]
      rfl

theorem matchOpcode_smalldata_iff {r : GetOpRet} :
    matchOpcode r OP_SMALLDATA vSolutions = some vSolutions' ↔
      r.vchRet.length ≤ MAX_OP_RETURN_RELAY ∧ vSolutions' = vSolutions := by
  unfold matchOpcode
  rw [if_neg (by decide), if_neg (by decide), if_neg (by decide), if_pos rfl]
  split_ifs with hlt
  · simp [hlt]
  · simp [not_lt.mp hlt, eq_comm]

theorem matchTemplate_returnData_iff :
    matchTemplate [OP_RETURN, OP_SMALLDATA] script [] = some vSolutions ↔
      ∃ op vch, Reads script [(OP_RETURN, []), (op, vch)] ∧
        vch.length ≤ MAX_OP_RETURN_RELAY ∧ vSolutions = [] := by
  constructor
  · intro h
    obtain ⟨rest1, hread1, h⟩ := matchTemplate_exact (by decide) h
    obtain ⟨op2, vch2, rest2, sol2, hread2, hmatch2, h⟩ := matchTemplate_cons (by decide) h
    obtain ⟨hsize, rfl⟩ := matchOpcode_smalldata_iff.mp hmatch2
    obtain ⟨rfl, rfl⟩ := matchTemplate_nil h
    exact ⟨op2, vch2, .cons hread1 (.cons hread2 .nil), hsize, rfl⟩
  · rintro ⟨op, vch, hreads, hsize, rfl⟩
    cases hreads with
    | cons hread1 hreads =>
      cases hreads with
      | cons hread2 hreads =>
        cases hreads
        rw [matchTemplate_self (by decide) hread1,
          matchTemplate_read (by decide) hread2 (matchOpcode_smalldata_iff.mpr ⟨hsize, rfl⟩)]
        rfl

/-- The instructions of a multisig script, whatever its numbers are. -/
def multisigInstrs (m n : Nat) (keys : List (Nat × Valtype)) : List (Nat × Valtype) :=
  (smallOp m, []) :: (keys ++ [(smallOp n, []), (OP_CHECKMULTISIG, [])])

theorem takePubKeys_of_reads (hsize : isPubKeySize vch = false) :
    ∀ (keys : List (Nat × Valtype)) (fuel : Nat) {pc : CScript} (vSolutions : List Valtype), keys.length ≤ fuel →
      Reads pc (keys ++ (op, vch) :: instrs) → (∀ key ∈ keys, isPubKeySize key.2 = true) →
      ∃ pc', takePubKeys fuel (getOp2 pc) vSolutions = (getOp2 pc', vSolutions ++ keys.map Prod.snd) ∧
        Reads pc' ((op, vch) :: instrs) := by
  intro keys
  induction keys with
  | nil =>
    intro fuel pc vSolutions _ hreads _
    refine ⟨pc, ?_, hreads⟩
    rw [List.map_nil, List.append_nil]
    rw [List.nil_append] at hreads
    cases hreads with
    | cons hread _ =>
      rw [hread]
      cases fuel with
      | zero => rfl
      | succ fuel => rw [takePubKeys, if_neg (by rw [hsize]; decide)]
  | cons key keys ih =>
    intro fuel pc vSolutions hfuel hreads hkeys
    rw [List.forall_mem_cons] at hkeys
    rw [List.length_cons] at hfuel
    obtain ⟨fuel, rfl⟩ := Nat.exists_eq_add_of_le' (Nat.one_le_of_lt (Nat.lt_of_lt_of_le (Nat.succ_pos _) hfuel))
    obtain ⟨rest1, hread, hrest⟩ := hreads.head
    obtain ⟨pc', htake, hreads'⟩ := ih fuel (vSolutions ++ [key.2]) (by omega) hrest hkeys.2
    refine ⟨pc', ?_, hreads'⟩
    rw [takePubKeys, hread]
    dsimp only
    -- the instruction after a key can be read, be it a key or the number
    rw [if_pos hkeys.1, if_pos (hrest.ok (by simp)), htake, List.map_cons, List.append_assoc,
      List.singleton_append]

theorem matchOpcode_smallOp (h : n ≤ 16) :
    matchOpcode ⟨true, smallOp n, vch, rest⟩ OP_SMALLINTEGER vSolutions =
      some (vSolutions ++ [[UInt8.ofNat n]]) := by
  unfold matchOpcode
  rw [if_neg (by decide), if_neg (by decide), if_pos rfl, if_pos (smallinteger_smallOp h)]
  dsimp only
  rw [decodeOpN_smallOp]

theorem matchTemplate_multisig_iff :
    matchTemplate [OP_SMALLINTEGER, OP_PUBKEYS, OP_SMALLINTEGER, OP_CHECKMULTISIG] script [] = some vSolutions ↔
      ∃ m n keys, Reads script (multisigInstrs m n keys) ∧ (∀ key ∈ keys, isPubKeySize key.2 = true) ∧
        m ≤ 16 ∧ n ≤ 16 ∧ vSolutions = [UInt8.ofNat m] :: (keys.map Prod.snd ++ [[UInt8.ofNat n]]) := by
  constructor
  · intro h
    obtain ⟨op1, vch1, rest1, sol1, hread1, hmatch1, h⟩ := matchTemplate_cons (by decide) h
    obtain ⟨hop1, rfl⟩ := matchOpcode_smallinteger hmatch1
    obtain ⟨keys, pc', op2, vch2, rest2, hkeys, hreads, hread2, hop2, h⟩ := matchTemplate_pubkeys h
    obtain ⟨rest3, hread3, h⟩ := matchTemplate_exact (by decide) h
    dsimp only at hop1
    obtain ⟨rfl, rfl⟩ := matchTemplate_nil h
    obtain rfl := vch_of_smallinteger hread1 hop1
    obtain rfl := vch_of_smallinteger hread2 hop2
    obtain ⟨heq1, hle1⟩ := smallOp_of_smallinteger hop1
    obtain ⟨heq2, hle2⟩ := smallOp_of_smallinteger hop2
    refine ⟨decodeOpN op1, decodeOpN op2, keys, ?_, hkeys, hle1, hle2, rfl⟩
    rw [multisigInstrs, ← heq1, ← heq2]
    exact .cons hread1 (hreads _ (.cons hread2 (.cons hread3 .nil)))
  · rintro ⟨m, n, keys, hreads, hkeys, hm, hn, rfl⟩
    obtain ⟨rest1, hread1, hreads⟩ := hreads.head
    have hfuel : keys.length ≤ rest1.length := by
      have hlen := hreads.length_le
      rw [List.length_append] at hlen
      omega
    obtain ⟨pc', htake, hreads'⟩ :=
      takePubKeys_of_reads rfl keys rest1.length [[UInt8.ofNat m]] hfuel hreads hkeys
    obtain ⟨rest2, hread2, hreads'⟩ := hreads'.head
    obtain ⟨rest3, hread3, hreads'⟩ := hreads'.head
    cases hreads'
    rw [matchTemplate_read (by decide) hread1 (matchOpcode_smallOp hm), matchTemplate]
    dsimp only
    rw [hreads.ok (by simp), if_neg (by decide), if_pos rfl, List.nil_append, htake, hread2]
    dsimp only
    rw [matchOpcode_smallOp hn, Option.bind_some, matchTemplate_self (by decide) hread3]
    rfl

end Templates

/-! ### The scripts that `Solver` is for -/

/-- A script of a standard type with its solutions: after `OP_RETURN` there is nothing, or one push in the sense of
`IsPushOnly`. -/
inductive IsTemplate (script : CScript) : Txnouttype → List Valtype → Prop
  | keys {typeRet : Txnouttype} {vSolutions : List Valtype} : StandardScript script typeRet vSolutions →
      typeRet ≠ .nullData → IsTemplate script typeRet vSolutions
  | nullData : Reads script [(OP_RETURN, [])] → IsTemplate script .nullData []
  | nullDataPush {op : Nat} {vch : Valtype} : Reads script [(OP_RETURN, []), (op, vch)] → op ≤ OP_16 →
      vch.length ≤ MAX_OP_RETURN_RELAY → IsTemplate script .nullData []

/-- `Solver` returns true with the type and the solutions exactly for these scripts, and otherwise false with
`TX_NONSTANDARD` and no solutions. -/
structure SolverExact (script : CScript) : Prop where
  accepts : ∀ typeRet vSolutions,
    script.solverRet [] = ⟨true, typeRet, vSolutions⟩ ↔ IsTemplate script typeRet vSolutions
  rejects : (∀ typeRet vSolutions, ¬IsTemplate script typeRet vSolutions) →
    script.solverRet [] = ⟨false, .nonstandard, []⟩

/-- `m <keys> n OP_CHECKMULTISIG`, but not with `1 ≤ m ≤ n` and `n` keys. -/
def MiscountedMultisig (script : CScript) : Prop :=
  ∃ m n keys, Reads script (multisigInstrs m n keys) ∧ (∀ key ∈ keys, isPubKeySize key.2 = true) ∧
    m ≤ 16 ∧ n ≤ 16 ∧ ¬(1 ≤ m ∧ m ≤ n ∧ keys.length = n)

/-- `OP_RETURN` and one opcode that is no push. -/
def OpcodeAfterReturn (script : CScript) : Prop :=
  ∃ op vch, Reads script [(OP_RETURN, []), (op, vch)] ∧ OP_16 < op

section Exact

variable {script : CScript} {typeRet : Txnouttype} {vSolutions : List Valtype}

theorem checkMultisig_iff {m : Nat} {keys : List (Nat × Valtype)} (hm : m ≤ 16) (hn : n ≤ 16) :
    checkMultisig ([UInt8.ofNat m] :: (keys.map Prod.snd ++ [[UInt8.ofNat n]])) = true ↔
      1 ≤ m ∧ m ≤ n ∧ keys.length = n := by
  have hbyte : ∀ k ≤ 16, (UInt8.ofNat k).toNat = k := fun k hk =>
    UInt8.toNat_ofNat_of_lt (show k < 256 by omega)
  simp only [checkMultisig, List.headD_cons, List.getLastD_cons, List.getLastD_concat, hbyte m hm, hbyte n hn,
    List.length_cons, List.length_append, List.length_map, List.length_nil, Bool.not_eq_true',
    Bool.or_eq_false_iff, decide_eq_false_iff_not, not_lt, ne_eq, not_not]
  omega

theorem standardScript_multisig_iff :
    StandardScript script .multisig vSolutions ↔
      ∃ m n keys, Reads script (multisigInstrs m n keys) ∧ (∀ key ∈ keys, isPubKeySize key.2 = true) ∧
        (1 ≤ m ∧ m ≤ n ∧ keys.length = n) ∧ n ≤ 16 ∧
        vSolutions = [UInt8.ofNat m] :: (keys.map Prod.snd ++ [[UInt8.ofNat n]]) := by
  have hop : ∀ k, 1 ≤ k → smallOp k = OP_1 - 1 + k := fun k hk => if_neg (by omega)
  constructor
  · intro h
    cases h with
    | multisig hreads hkeys hlen hm hmn hn =>
      rw [← hop _ hm, ← hop _ (hm.trans hmn)] at hreads
      exact ⟨_, _, _, hreads, hkeys, ⟨hm, hmn, hlen⟩, hn, rfl⟩
  · rintro ⟨m, n, keys, hreads, hkeys, ⟨hm, hmn, hlen⟩, hn, rfl⟩
    rw [multisigInstrs, hop _ hm, hop _ (hm.trans hmn)] at hreads
    exact .multisig hreads hkeys hlen hm hmn hn

/-- The type that the first instruction tells: no two templates match the same script. -/
def kindOf : List (Nat × Valtype) → Txnouttype
  | [] => .nonstandard
  | (op, vch) :: _ =>
    if isPubKeySize vch then .pubkey
    else if op = OP_DUP then .pubkeyhash
    else if op = OP_HASH160 then .scripthash
    else if op = OP_RETURN then .nullData
    else .multisig

def HasKind (script : CScript) (typeRet : Txnouttype) : Prop :=
  ∃ instrs, Reads script instrs ∧ kindOf instrs = typeRet

theorem HasKind.unique {typeRet' : Txnouttype} (h : HasKind script typeRet) (h' : HasKind script typeRet') :
    typeRet = typeRet' := by
  obtain ⟨instrs, hreads, rfl⟩ := h
  obtain ⟨instrs', hreads', rfl⟩ := h'
  rw [hreads.unique hreads']

theorem kindOf_multisig {m : Nat} {keys : List (Nat × Valtype)} (hm : m ≤ 16) :
    kindOf (multisigInstrs m n keys) = .multisig := by
  have hle := smallOp_le hm
  rw [OP_16] at hle
  have hkey : isPubKeySize [] = false := rfl
  rw [multisigInstrs, kindOf, hkey, if_neg Bool.false_ne_true, if_neg (by rw [OP_DUP]; omega),
    if_neg (by rw [OP_HASH160]; omega), if_neg (by rw [OP_RETURN]; omega)]

theorem hasKind_scripthash (h : script.isPayToScriptHash = true) : HasKind script .scripthash :=
  ⟨_, reads_scripthash h, rfl⟩

theorem hasKind_of_match (hmem : (typeRet, script2) ∈ mTemplates)
    (h : matchTemplate script2 script [] = some vSolutions) : HasKind script typeRet := by
  simp only [mTemplates, List.mem_cons, List.not_mem_nil, or_false, Prod.mk.injEq] at hmem
  rcases hmem with ⟨rfl, rfl⟩ | ⟨rfl, rfl⟩ | ⟨rfl, rfl⟩ | ⟨rfl, rfl⟩ | ⟨rfl, rfl⟩
  · obtain ⟨op, vch, hreads, hsize, -⟩ := matchTemplate_pubkey_iff.mp h
    exact ⟨_, hreads, by rw [kindOf, if_pos hsize]⟩
  · obtain ⟨op, keyID, hreads, -, -⟩ := matchTemplate_pubkeyhash_iff.mp h
    exact ⟨_, hreads, rfl⟩
  · obtain ⟨m, n, keys, hreads, -, hm, -, -⟩ := matchTemplate_multisig_iff.mp h
    exact ⟨_, hreads, kindOf_multisig hm⟩
  · obtain ⟨op, vch, hreads, -, -⟩ := matchTemplate_returnData_iff.mp h
    exact ⟨_, hreads, rfl⟩
  · exact ⟨_, (matchTemplate_return_iff.mp h).1, rfl⟩

theorem matchTemplate_eq_none {typeRet' : Txnouttype} (hkind : HasKind script typeRet)
    (hmem : (typeRet', script2) ∈ mTemplates) (hne : typeRet' ≠ typeRet) :
    matchTemplate script2 script [] = none := by
  cases hmatch : matchTemplate script2 script [] with
  | none => rfl
  | some vSolutions => exact absurd ((hasKind_of_match hmem hmatch).unique hkind) hne

theorem scanTemplatesRet_none {templates : List (Txnouttype × List Nat)}
    (h : matchTemplate script2 script [] = none) :
    scanTemplatesRet script ((typeRet, script2) :: templates) = scanTemplatesRet script templates := by
  rw [scanTemplatesRet, h]

theorem scanTemplatesRet_some {templates : List (Txnouttype × List Nat)}
    (h : matchTemplate script2 script [] = some vSolutions)
    (hcheck : typeRet = .multisig → checkMultisig vSolutions = true) :
    scanTemplatesRet script ((typeRet, script2) :: templates) = ⟨true, typeRet, vSolutions⟩ := by
  rw [scanTemplatesRet, h]
  dsimp only
  rw [if_neg]
  intro hfail
  rw [Bool.and_eq_true, decide_eq_true_iff] at hfail
  rw [hcheck hfail.1] at hfail
  exact absurd hfail.2 (by decide)

theorem isPayToScriptHash_eq_false (hkind : HasKind script typeRet) (hne : typeRet ≠ .scripthash) :
    script.isPayToScriptHash = false := by
  cases hp2sh : script.isPayToScriptHash with
  | false => rfl
  | true => exact absurd (hkind.unique (hasKind_scripthash hp2sh)) hne

/-- The template of the script's type decides. -/
theorem solverRet_of_match (hmem : (typeRet, script2) ∈ mTemplates)
    (h : matchTemplate script2 script [] = some vSolutions)
    (hcheck : typeRet = .multisig → checkMultisig vSolutions = true) :
    script.solverRet [] = ⟨true, typeRet, vSolutions⟩ := by
  have hkind := hasKind_of_match hmem h
  have hnone : ∀ {typeRet' script2'}, (typeRet', script2') ∈ mTemplates → typeRet' ≠ typeRet →
      matchTemplate script2' script [] = none := fun hmem' hne => matchTemplate_eq_none hkind hmem' hne
  have hne : typeRet ≠ .scripthash := by
    rintro rfl
    simp [mTemplates] at hmem
  rw [solverRet, isPayToScriptHash_eq_false hkind hne, if_neg Bool.false_ne_true, mTemplates]
  simp only [mTemplates, List.mem_cons, List.not_mem_nil, or_false, Prod.mk.injEq] at hmem hnone
  rcases hmem with ⟨rfl, rfl⟩ | ⟨rfl, rfl⟩ | ⟨rfl, rfl⟩ | ⟨rfl, rfl⟩ | ⟨rfl, rfl⟩
  · exact scanTemplatesRet_some h hcheck
  · rw [scanTemplatesRet_none (hnone (.inl ⟨rfl, rfl⟩) (by decide))]
    exact scanTemplatesRet_some h hcheck
  · rw [scanTemplatesRet_none (hnone (.inl ⟨rfl, rfl⟩) (by decide)),
      scanTemplatesRet_none (hnone (.inr (.inl ⟨rfl, rfl⟩)) (by decide))]
    exact scanTemplatesRet_some h hcheck
  · rw [scanTemplatesRet_none (hnone (.inl ⟨rfl, rfl⟩) (by decide)),
      scanTemplatesRet_none (hnone (.inr (.inl ⟨rfl, rfl⟩)) (by decide)),
      scanTemplatesRet_none (hnone (.inr (.inr (.inl ⟨rfl, rfl⟩))) (by decide))]
    exact scanTemplatesRet_some h hcheck
  · rw [scanTemplatesRet_none (hnone (.inl ⟨rfl, rfl⟩) (by decide)),
      scanTemplatesRet_none (hnone (.inr (.inl ⟨rfl, rfl⟩)) (by decide)),
      scanTemplatesRet_none (hnone (.inr (.inr (.inl ⟨rfl, rfl⟩))) (by decide))]
    -- the template with data has the same type, but there is no second instruction
    have hreads := (matchTemplate_return_iff.mp h).1
    have hdata : matchTemplate [OP_RETURN, OP_SMALLDATA] script [] = none := by
      cases hmatch : matchTemplate [OP_RETURN, OP_SMALLDATA] script [] with
      | none => rfl
      | some v =>
        obtain ⟨op, vch, hreads', -, -⟩ := matchTemplate_returnData_iff.mp hmatch
        cases hreads.unique hreads'
    rw [scanTemplatesRet_none hdata]
    exact scanTemplatesRet_some h hcheck

theorem IsTemplate.solverRet_eq (h : IsTemplate script typeRet vSolutions) :
    script.solverRet [] = ⟨true, typeRet, vSolutions⟩ := by
  cases h with
  | keys hscript hne =>
    cases hscript with
    | pubkey hreads hsize =>
      exact solverRet_of_match (by decide) (matchTemplate_pubkey_iff.mpr ⟨_, _, hreads, hsize, rfl⟩)
        fun htype => (nomatch htype)
    | pubkeyhash hreads hsize =>
      exact solverRet_of_match (by decide) (matchTemplate_pubkeyhash_iff.mpr ⟨_, _, hreads, hsize, rfl⟩)
        fun htype => (nomatch htype)
    | scripthash hp2sh => rw [solverRet, if_pos hp2sh, List.nil_append]
    | multisig hreads hkeys hlen hm hmn hn =>
      obtain ⟨m, n, keys, hreads, hkeys, hcount, hle, hsol⟩ :=
        standardScript_multisig_iff.mp (.multisig hreads hkeys hlen hm hmn hn)
      refine solverRet_of_match (by decide)
        (matchTemplate_multisig_iff.mpr ⟨m, n, keys, hreads, hkeys, hcount.2.1.trans hle, hle, hsol⟩) fun _ => ?_
      rw [hsol]
      exact (checkMultisig_iff (hcount.2.1.trans hle) hle).mpr hcount
    | nullData => exact absurd rfl hne
  | nullData hreads =>
    exact solverRet_of_match (by decide) (matchTemplate_return_iff.mpr ⟨hreads, rfl⟩) (by decide)
  | nullDataPush hreads _ hsize =>
    exact solverRet_of_match (by decide) (matchTemplate_returnData_iff.mpr ⟨_, _, hreads, hsize, rfl⟩) (by decide)

theorem MiscountedMultisig.solverRet_eq (h : MiscountedMultisig script) :
    ∃ vSolutions, script.solverRet [] = ⟨false, .multisig, vSolutions⟩ := by
  obtain ⟨m, n, keys, hreads, hkeys, hm, hn, hcount⟩ := h
  have hmatch := matchTemplate_multisig_iff.mpr ⟨m, n, keys, hreads, hkeys, hm, hn, rfl⟩
  have hkind : HasKind script .multisig := ⟨_, hreads, kindOf_multisig hm⟩
  have hpubkey := matchTemplate_eq_none hkind
    (show (Txnouttype.pubkey, [OP_PUBKEY, OP_CHECKSIG]) ∈ mTemplates by decide) (by decide)
  have hpubkeyhash := matchTemplate_eq_none hkind (show (Txnouttype.pubkeyhash,
    [OP_DUP, OP_HASH160, OP_PUBKEYHASH, OP_EQUALVERIFY, OP_CHECKSIG]) ∈ mTemplates by decide) (by decide)
  refine ⟨[UInt8.ofNat m] :: (keys.map Prod.snd ++ [[UInt8.ofNat n]]), ?_⟩
  rw [solverRet, isPayToScriptHash_eq_false hkind (by decide), if_neg Bool.false_ne_true, mTemplates,
    scanTemplatesRet_none hpubkey, scanTemplatesRet_none hpubkeyhash, scanTemplatesRet, hmatch]
  dsimp only
  rw [if_pos]
  rw [Bool.and_eq_true, decide_eq_true_iff, Bool.not_eq_true']
  exact ⟨rfl, Bool.eq_false_iff.mpr fun hcheck => hcount ((checkMultisig_iff hm hn).mp hcheck)⟩

/-- Of what `Solver` does, only these two kinds of scripts are not covered by the templates. -/
theorem template_of_match (hm : ¬MiscountedMultisig script) (hop : ¬OpcodeAfterReturn script)
    (hmem : (typeRet, script2) ∈ mTemplates) (h : matchTemplate script2 script [] = some vSolutions) :
    IsTemplate script typeRet vSolutions := by
  simp only [mTemplates, List.mem_cons, List.not_mem_nil, or_false, Prod.mk.injEq] at hmem
  rcases hmem with ⟨rfl, rfl⟩ | ⟨rfl, rfl⟩ | ⟨rfl, rfl⟩ | ⟨rfl, rfl⟩ | ⟨rfl, rfl⟩
  · exact .keys (reads_pubkey h) (by decide)
  · exact .keys (reads_pubkeyhash h) (by decide)
  · obtain ⟨m, n, keys, hreads, hkeys, hm16, hn16, hsol⟩ := matchTemplate_multisig_iff.mp h
    have hcount : 1 ≤ m ∧ m ≤ n ∧ keys.length = n := by
      by_contra hcount
      exact hm ⟨m, n, keys, hreads, hkeys, hm16, hn16, hcount⟩
    exact .keys (standardScript_multisig_iff.mpr ⟨m, n, keys, hreads, hkeys, hcount, hn16, hsol⟩) (by decide)
  · obtain ⟨op, vch, hreads, hsize, rfl⟩ := matchTemplate_returnData_iff.mp h
    exact .nullDataPush hreads (not_lt.mp fun hlt => hop ⟨op, vch, hreads, hlt⟩) hsize
  · obtain ⟨hreads, rfl⟩ := matchTemplate_return_iff.mp h
    exact .nullData hreads

theorem scanTemplatesRet_cases : ∀ templates : List (Txnouttype × List Nat),
    scanTemplatesRet script templates = ⟨false, .nonstandard, []⟩ ∨
      ∃ typeRet script2 vSolutions, (typeRet, script2) ∈ templates ∧
        matchTemplate script2 script [] = some vSolutions := by
  intro templates
  induction templates with
  | nil => exact .inl rfl
  | cons template templates ih =>
    obtain ⟨typeRet, script2⟩ := template
    cases hmatch : matchTemplate script2 script [] with
    | some vSolutions => exact .inr ⟨typeRet, script2, vSolutions, List.mem_cons_self, hmatch⟩
    | none =>
      rw [scanTemplatesRet_none hmatch]
      refine ih.imp_right fun ⟨typeRet', script2', vSolutions, hmem, h⟩ => ?_
      exact ⟨typeRet', script2', vSolutions, List.mem_cons_of_mem _ hmem, h⟩

/-- **`Solver` is exact** unless the script is a multisig script with wrong numbers or has an opcode that is no push
after `OP_RETURN`. -/
theorem solverExact_iff (script : CScript) :
    SolverExact script ↔ ¬MiscountedMultisig script ∧ ¬OpcodeAfterReturn script := by
  constructor
  · refine fun hexact => ⟨fun hm => ?_, ?_⟩
    · obtain ⟨vSolutions, hret⟩ := hm.solverRet_eq
      have hnone : ∀ typeRet vSolutions, ¬IsTemplate script typeRet vSolutions := fun typeRet vSolutions' h => by
        rw [h.solverRet_eq] at hret
        cases hret
      rw [hexact.rejects hnone] at hret
      cases hret
    · rintro ⟨op, vch, hreads, hop⟩
      have hvch : vch = [] := by
        obtain ⟨rest, -, hreads⟩ := hreads.head
        obtain ⟨rest', hread, -⟩ := hreads.head
        refine (getOp2_push_or hread).resolve_left fun hle => ?_
        rw [OP_PUSHDATA4] at hle
        rw [OP_16] at hop
        omega
      subst hvch
      have hmem : (Txnouttype.nullData, [OP_RETURN, OP_SMALLDATA]) ∈ mTemplates := by decide
      have hret := solverRet_of_match hmem
        (matchTemplate_returnData_iff.mpr ⟨op, [], hreads, Nat.zero_le _, rfl⟩) (by decide)
      cases (hexact.accepts _ _).mp hret with
      | keys _ hne => exact absurd rfl hne
      | nullData hreads' => cases hreads.unique hreads'
      | nullDataPush hreads' hle _ =>
        cases hreads.unique hreads'
        exact absurd hle (by omega)
  · rintro ⟨hm, hop⟩
    have hcases : script.solverRet [] = ⟨false, .nonstandard, []⟩ ∨
        ∃ typeRet vSolutions, IsTemplate script typeRet vSolutions := by
      cases hp2sh : script.isPayToScriptHash with
      | true => exact .inr ⟨_, _, .keys (.scripthash hp2sh) (by decide)⟩
      | false =>
        rw [solverRet, hp2sh, if_neg Bool.false_ne_true]
        apply (scanTemplatesRet_cases mTemplates).imp_right
        rintro ⟨typeRet, script2, vSolutions, hmem, h⟩
        exact ⟨typeRet, vSolutions, template_of_match hm hop hmem h⟩
    refine ⟨fun typeRet vSolutions => ⟨fun hret => ?_, fun h => h.solverRet_eq⟩, fun hnone => ?_⟩
    · rcases hcases with hfalse | ⟨typeRet', vSolutions', h⟩
      · rw [hfalse] at hret
        cases hret
      · cases h.solverRet_eq.symm.trans hret
        exact h
    · refine hcases.resolve_right ?_
      rintro ⟨typeRet, vSolutions, h⟩
      exact hnone typeRet vSolutions h

end Exact

end CScript

/-! ### Scripts that are made -/

section Recover

open CScript

/-- The bytes of a valid `CPubKey`. -/
def IsPubKey (key : Valtype) : Prop := key ≠ [] ∧ pubKeyOfVch key = key

theorem IsPubKey.size (h : IsPubKey key) : isPubKeySize key = true := by
  obtain ⟨hne, hkey⟩ := h
  obtain ⟨b, vch, rfl⟩ := List.exists_cons_of_ne_nil hne
  unfold pubKeyOfVch at hkey
  dsimp only at hkey
  split_ifs at hkey with hlen
  have hsize : pubKeyLen b = 33 ∨ pubKeyLen b = 65 := by
    have h0 := hlen.1
    unfold pubKeyLen at h0 ⊢
    split_ifs at h0 ⊢ <;> simp_all
  rw [isPubKeySize, Bool.and_eq_true, decide_eq_true_iff, decide_eq_true_iff, ← hlen.2]
  omega

theorem IsPubKey.length_lt (h : IsPubKey key) : key.length < 2 ^ 32 := by
  have hsize := h.size
  rw [isPubKeySize, Bool.and_eq_true, decide_eq_true_iff, decide_eq_true_iff] at hsize
  omega

theorem getOp2_op {b : UInt8} (hgt : OP_PUSHDATA4 < b.toNat) (pc : CScript) :
    getOp2 (b :: pc) = ⟨true, b.toNat, [], pc⟩ := by
  rw [OP_PUSHDATA4] at hgt
  unfold getOp2
  dsimp only
  rw [if_neg (by rw [OP_PUSHDATA1]; omega), if_neg (by rw [OP_PUSHDATA1]; omega),
    if_neg (by rw [OP_PUSHDATA2]; omega), if_neg (by rw [OP_PUSHDATA4]; omega)]

theorem getOp2_push20 {id : Valtype} (hid : id.length = 20) (pc : CScript) :
    getOp2 (0x14 :: (id ++ pc)) = ⟨true, 20, id, pc⟩ := by
  show getPush 20 20 (id ++ pc) = _
  rw [← hid]
  exact getPush_append _ _ _

/-- What is pushed is read with some opcode. -/
theorem reads_pushVch {vch : Valtype} (hlen : vch.length < 2 ^ 32) {rest : CScript}
    (h : Reads rest instrs) : ∃ op, Reads (pushVch vch ++ rest) ((op, vch) :: instrs) := by
  obtain ⟨op, -, hread⟩ := getOp2_pushVch vch rest hlen
  exact ⟨op, .cons hread h⟩

theorem reads_pushAll {rest : CScript} (h : Reads rest instrs) :
    ∀ keys : List Valtype, (∀ key ∈ keys, IsPubKey key) →
      ∃ ops : List (Nat × Valtype), ops.map Prod.snd = keys ∧
        Reads (keys.flatMap pushVch ++ rest) (ops ++ instrs) := by
  intro keys
  induction keys with
  | nil => exact fun _ => ⟨[], rfl, h⟩
  | cons key keys ih =>
    intro hkeys
    rw [List.forall_mem_cons] at hkeys
    obtain ⟨ops, hops, hreads⟩ := ih hkeys.2
    obtain ⟨op, hreads⟩ := reads_pushVch hkeys.1.length_lt hreads
    refine ⟨(op, key) :: ops, by rw [List.map_cons, hops], ?_⟩
    rw [List.flatMap_cons, List.append_assoc]
    exact hreads

theorem scanTemplates_eq {script : CScript} {typeRet : Txnouttype} {vSolutions : List Valtype} :
    ∀ templates : List (Txnouttype × List Nat),
      scanTemplatesRet script templates = ⟨true, typeRet, vSolutions⟩ →
      scanTemplates script templates = some (typeRet, vSolutions) := by
  intro templates
  induction templates with
  | nil => exact fun h => (nomatch h)
  | cons template templates ih =>
    intro h
    rw [scanTemplatesRet] at h
    rw [scanTemplates]
    cases hmatch : matchTemplate template.2 script [] with
    | none =>
      rw [hmatch] at h
      exact ih h
    | some v =>
      rw [hmatch] at h
      dsimp only at h ⊢
      split_ifs at h ⊢ with hcheck
      · cases h
      · cases h
        rfl

/-- What the other functions use of `Solver`. -/
theorem solver_eq {script : CScript} {typeRet : Txnouttype} {vSolutions : List Valtype}
    (h : script.solverRet [] = ⟨true, typeRet, vSolutions⟩) : script.solver = some (typeRet, vSolutions) := by
  unfold solverRet at h
  unfold solver
  split_ifs at h ⊢
  · cases h
    rfl
  · exact scanTemplates_eq _ h

theorem reads_pubkeyhash_dest {id : Valtype} (hid : id.length = 20) :
    Reads (getScriptForDestination (.keyID id)) [(OP_DUP, []), (OP_HASH160, []), (20, id), (OP_EQUALVERIFY, []),
      (OP_CHECKSIG, [])] := by
  refine .cons (getOp2_op (by decide) _) (.cons (getOp2_op (by decide) _) ?_)
  refine .cons (getOp2_push20 hid _) ?_
  exact .cons (getOp2_op (by decide) _) (.cons (getOp2_op (by decide) _) .nil)

theorem isPayToScriptHash_dest {id : Valtype} (hid : id.length = 20) :
    (getScriptForDestination (.scriptID id)).isPayToScriptHash = true ∧
      ((getScriptForDestination (.scriptID id)).drop 2).take 20 = id := by
  have hlast : (id ++ [0x87]).getD 20 0 = 0x87 := by
    rw [List.getD_eq_getElem?_getD, List.getElem?_append_right hid.le, hid]
    rfl
  constructor
  · have hlen : (getScriptForDestination (.scriptID id)).length = 23 := by
      simp only [getScriptForDestination, List.length_append, List.length_cons, List.length_nil, hid]
    rw [isPayToScriptHash, hlen]
    show (true && true && true && decide (((id ++ [0x87]).getD 20 0).toNat = OP_EQUAL)) = true
    rw [hlast]
    rfl
  · show (id ++ [0x87]).take 20 = id
    rw [← hid, List.take_left]

theorem reads_rawPubKey (h : IsPubKey key) :
    ∃ op, Reads (getScriptForRawPubKey key) [(op, key), (OP_CHECKSIG, [])] :=
  reads_pushVch h.length_lt (.cons (getOp2_op (b := 0xac) (by decide) []) .nil)

theorem encodeOpN_eq {n : Nat} (hn : n ≤ 16) : encodeOpN n = some (smallOp n) := by
  rw [encodeOpN, if_pos ⟨by omega, by omega⟩, smallOp, OP_1]
  split_ifs with h1 h2 <;> first | rfl | (congr 1; omega)

theorem getOp2_smallOp {n : Nat} (hn : 1 ≤ n) (hle : n ≤ 16) (pc : CScript) :
    getOp2 (UInt8.ofNat (smallOp n) :: pc) = ⟨true, smallOp n, [], pc⟩ := by
  have hop : smallOp n = 0x50 + n := if_neg (by omega)
  have hbyte : (UInt8.ofNat (smallOp n)).toNat = smallOp n := toNat_ofNat_lt (by omega)
  rw [getOp2_op (by rw [hbyte, OP_PUSHDATA4]; omega), hbyte]

theorem reads_multisig_script {m : Nat} {keys : List Valtype} (hkeys : ∀ key ∈ keys, IsPubKey key) (hm : 1 ≤ m)
    (hmn : m ≤ keys.length) (hn : keys.length ≤ 16) :
    ∃ script ops, getScriptForMultisig m keys = some script ∧ ops.map Prod.snd = keys ∧
      Reads script (multisigInstrs m keys.length ops) := by
  have hend : Reads [UInt8.ofNat (smallOp keys.length), 0xae] [(smallOp keys.length, []), (OP_CHECKMULTISIG, [])] :=
    .cons (getOp2_smallOp (hm.trans hmn) hn _) (.cons (getOp2_op (by decide) _) .nil)
  obtain ⟨ops, hops, hreads⟩ := reads_pushAll hend keys hkeys
  refine ⟨_, ops, ?_, hops, .cons (getOp2_smallOp hm (hmn.trans hn) _) hreads⟩
  rw [getScriptForMultisig, encodeOpN_eq (hmn.trans hn), encodeOpN_eq hn]
  rfl

/-- `Solver`, `ExtractDestination` and `ExtractDestinations` find again what a script has been made of. -/
structure SolverRecovers (crypto : ScriptCrypto) : Prop where
  keyID : ∀ id : Valtype, id.length = 20 →
    (getScriptForDestination (.keyID id)).solverRet [] = ⟨true, .pubkeyhash, [id]⟩ ∧
    extractDestination crypto (getScriptForDestination (.keyID id)) = some (.keyID id) ∧
    extractDestinations crypto (getScriptForDestination (.keyID id)) = some (.pubkeyhash, [.keyID id], 1)
  scriptID : ∀ id : Valtype, id.length = 20 →
    (getScriptForDestination (.scriptID id)).solverRet [] = ⟨true, .scripthash, [id]⟩ ∧
    extractDestination crypto (getScriptForDestination (.scriptID id)) = some (.scriptID id) ∧
    extractDestinations crypto (getScriptForDestination (.scriptID id)) = some (.scripthash, [.scriptID id], 1)
  rawPubKey : ∀ key : Valtype, IsPubKey key →
    (getScriptForRawPubKey key).solverRet [] = ⟨true, .pubkey, [key]⟩ ∧
    extractDestination crypto (getScriptForRawPubKey key) = some (.keyID (pubKeyID crypto key)) ∧
    extractDestinations crypto (getScriptForRawPubKey key) = some (.pubkey, [.keyID (pubKeyID crypto key)], 1)
  multisig : ∀ (m : Nat) (keys : List Valtype), (∀ key ∈ keys, IsPubKey key) → 1 ≤ m → m ≤ keys.length →
    keys.length ≤ 16 → ∃ script, getScriptForMultisig m keys = some script ∧
      script.solverRet [] = ⟨true, .multisig, [UInt8.ofNat m] :: (keys ++ [[UInt8.ofNat keys.length]])⟩ ∧
      extractDestinations crypto script = some (.multisig, keys.map fun key => .keyID (pubKeyID crypto key), m)

/-- One destination, for the types that have one. -/
theorem extractDestinations_eq {crypto : ScriptCrypto} {script : CScript} {typeRet : Txnouttype}
    {vSolutions : List Valtype} {address : CTxDestination} (h : script.solverRet [] = ⟨true, typeRet, vSolutions⟩)
    (hdata : typeRet ≠ .nullData) (hmulti : typeRet ≠ .multisig)
    (haddress : extractDestination crypto script = some address) :
    extractDestinations crypto script = some (typeRet, [address], 1) := by
  rw [extractDestinations, h]
  dsimp only
  rw [if_neg (by decide), if_neg hdata, if_neg hmulti, haddress, Option.map_some]

theorem solver_recovers (crypto : ScriptCrypto) : SolverRecovers crypto where
  keyID id hid := by
    have h := (IsTemplate.keys (.pubkeyhash (reads_pubkeyhash_dest hid) hid) (by decide)).solverRet_eq
    have haddress : extractDestination crypto (getScriptForDestination (.keyID id)) = some (.keyID id) := by
      rw [extractDestination, solver_eq h]
      rfl
    exact ⟨h, haddress, extractDestinations_eq h (by decide) (by decide) haddress⟩
  scriptID id hid := by
    obtain ⟨hp2sh, hhash⟩ := isPayToScriptHash_dest hid
    have h := (IsTemplate.keys (.scripthash hp2sh) (by decide)).solverRet_eq
    rw [hhash] at h
    have haddress : extractDestination crypto (getScriptForDestination (.scriptID id)) = some (.scriptID id) := by
      rw [extractDestination, solver_eq h]
      rfl
    exact ⟨h, haddress, extractDestinations_eq h (by decide) (by decide) haddress⟩
  rawPubKey key hkey := by
    obtain ⟨op, hreads⟩ := reads_rawPubKey hkey
    have h := (IsTemplate.keys (.pubkey hreads hkey.size) (by decide)).solverRet_eq
    have haddress : extractDestination crypto (getScriptForRawPubKey key) =
        some (.keyID (pubKeyID crypto key)) := by
      rw [extractDestination, solver_eq h]
      rfl
    exact ⟨h, haddress, extractDestinations_eq h (by decide) (by decide) haddress⟩
  multisig m keys hkeys hm hmn hn := by
    obtain ⟨script, ops, hscript, hops, hreads⟩ := reads_multisig_script hkeys hm hmn hn
    have hsize : ∀ key ∈ ops, isPubKeySize key.2 = true := fun key hmem =>
      (hkeys key.2 (hops ▸ List.mem_map_of_mem hmem)).size
    have hlen : ops.length = keys.length := by rw [← hops, List.length_map]
    have hstandard := standardScript_multisig_iff.mpr
      ⟨m, keys.length, ops, hreads, hsize, ⟨hm, hmn, hlen⟩, hn, rfl⟩
    rw [hops] at hstandard
    have h := (IsTemplate.keys hstandard (by decide)).solverRet_eq
    refine ⟨script, hscript, h, ?_⟩
    rw [extractDestinations, h]
    dsimp only
    rw [if_neg (by decide), if_neg (by decide), if_pos rfl, multisigRequired, List.headD_cons, List.headD_cons,
      toNat_ofNat_lt (by omega), multisigKeys, List.drop_one, List.tail_cons, List.dropLast_concat]

/-- **`Solver` and its inverses**: it is exact for every script but those of the two kinds, and the keys, the hashes and
the number of signatures of a script that was made from them are recovered. -/
theorem solver_templates_iff (crypto : ScriptCrypto) :
    (∀ script : CScript, SolverExact script ↔ ¬MiscountedMultisig script ∧ ¬OpcodeAfterReturn script) ∧
      SolverRecovers crypto :=
  ⟨solverExact_iff, solver_recovers crypto⟩

/-- `OP_2 <key> OP_1 OP_CHECKMULTISIG`: more signatures than keys. -/
def oneKeyTwoSigs : CScript := 0x52 :: 0x21 :: 2 :: (List.replicate 32 0 ++ [0x51, 0xae])

/-- `OP_RETURN OP_CHECKSIG` is accepted, and `oneKeyTwoSigs` leaves its type and solutions behind. -/
theorem solver_inexact :
    ¬SolverExact [0x6a, 0xac] ∧ ¬SolverExact oneKeyTwoSigs ∧
      solverRet [0x6a, 0xac] [] = ⟨true, .nullData, []⟩ ∧
      solverRet oneKeyTwoSigs [] = ⟨false, .multisig, [[2], 2 :: List.replicate 32 0, [1]]⟩ := by
  have hreturn : solverRet [0x6a, 0xac] [] = ⟨true, .nullData, []⟩ := by decide
  have hmulti : solverRet oneKeyTwoSigs [] = ⟨false, .multisig, [[2], 2 :: List.replicate 32 0, [1]]⟩ := by
    decide +kernel
  refine ⟨fun h => ?_, fun h => ?_, hreturn, hmulti⟩
  · have hreads : Reads [0x6a, 0xac] [(OP_RETURN, []), (OP_CHECKSIG, [])] := .cons rfl (.cons rfl .nil)
    cases (h.accepts _ _).mp hreturn with
    | keys _ hne => exact absurd rfl hne
    | nullData hreads' => cases hreads.unique hreads'
    | nullDataPush hreads' hle _ =>
      cases hreads.unique hreads'
      exact absurd hle (by decide)
  · have hnone : ∀ typeRet vSolutions, ¬IsTemplate oneKeyTwoSigs typeRet vSolutions :=
      fun typeRet vSolutions ht => by
      rw [ht.solverRet_eq] at hmulti
      cases hmulti
    rw [h.rejects hnone] at hmulti
    cases hmulti

end Recover

/-! ### `IsNormalPaymentScript` -/

section NormalPayment

open CScript

/-- `OP_DUP OP_HASH160 <20-byte push> OP_EQUALVERIFY OP_CHECKSIG`. -/
def IsPayToPubkeyHash (script : CScript) : Prop :=
  ∃ id : Valtype, id.length = 20 ∧ script = getScriptForDestination (.keyID id)

/-- The part of `OP_EQUALVERIFY OP_CHECKSIG` that is there. -/
def IsCheckPrefix (pc : CScript) : Prop := pc = [] ∨ pc = [0x88] ∨ pc = [0x88, 0xac]

/-- 25 bytes `OP_DUP OP_HASH160`, one instruction other than the direct push of 20 bytes, and at most
`OP_EQUALVERIFY OP_CHECKSIG` after it. -/
def OtherThirdInstruction (script : CScript) : Prop :=
  script.length = 25 ∧ script.take 2 = [0x76, 0xa9] ∧
    ∃ op vch rest, getOp2 (script.drop 2) = ⟨true, op, vch, rest⟩ ∧ op ≠ 20 ∧ IsCheckPrefix rest

/-- Every round reads a byte, so more rounds than bytes change nothing. -/
theorem normalPaymentLoop_fuel : ∀ (fuel fuel' i : Nat) {pc : CScript}, pc.length ≤ fuel → pc.length ≤ fuel' →
    normalPaymentLoop fuel i pc = normalPaymentLoop fuel' i pc := by
  intro fuel
  induction fuel with
  | zero =>
    intro fuel' i pc hle _
    obtain rfl := List.eq_nil_of_length_eq_zero (Nat.le_zero.mp hle)
    cases fuel' <;> rfl
  | succ fuel ih =>
    intro fuel' i pc hle hle'
    cases pc with
    | nil => cases fuel' <;> rfl
    | cons b pc =>
      have hlt := getOp2_length_lt b pc
      cases fuel' with
      | zero => cases hle'
      | succ fuel' =>
        simp only [normalPaymentLoop]
        rw [ih fuel' (i + 1) (by omega) (by omega)]

theorem getOp2_opcode {b : UInt8} {op : Nat} (hop : OP_PUSHDATA4 < op) (hvalid : op ≠ OP_INVALIDOPCODE)
    (h : (getOp2 (b :: pc)).opcodeRet = op) : b.toNat = op ∧ (getOp2 (b :: pc)).pc = pc := by
  have hok : (getOp2 (b :: pc)).ok = true := by
    cases hok : (getOp2 (b :: pc)).ok with
    | true => rfl
    | false => exact absurd (h.symm.trans (getOp2_failed hok)) hvalid
  have hgt : OP_PUSHDATA4 < b.toNat := by
    have hread := getOp2_eq_of_ok hok
    by_contra hle
    rw [OP_PUSHDATA4] at hop hle
    have hle' : (getOp2 (b :: pc)).opcodeRet ≤ OP_PUSHDATA4 := by
      unfold getOp2 at hread ⊢
      dsimp only at hread ⊢
      split_ifs at hread ⊢ with h1 h2 h3 h4
      · rw [getPush_ok hread]
        exact h1.le.trans (by decide)
      · rw [getPushData_ok hread, h2]
        decide
      · rw [getPushData_ok hread, h3]
        decide
      · rw [getPushData_ok hread, h4]
      · rw [OP_PUSHDATA1] at h1
        rw [OP_PUSHDATA1] at h2
        rw [OP_PUSHDATA2] at h3
        rw [OP_PUSHDATA4] at h4
        omega
    rw [h, OP_PUSHDATA4] at hle'
    omega
  rw [getOp2_op hgt] at h ⊢
  exact ⟨h, rfl⟩

/-- The rounds that ask for an opcode. -/
theorem normalPaymentLoop_asks {i : Nat} (op : Nat)
    (hi : (i, op) ∈ [(0, OP_DUP), (1, OP_HASH160), (3, OP_EQUALVERIFY), (4, OP_CHECKSIG)]) (fuel : Nat) (b : UInt8)
    (pc : CScript) : normalPaymentLoop (fuel + 1) i (b :: pc) = true ↔
      b = UInt8.ofNat op ∧ normalPaymentLoop fuel (i + 1) pc = true := by
  have hop : OP_PUSHDATA4 < op ∧ op < OP_INVALIDOPCODE := by
    simp only [List.mem_cons, List.not_mem_nil, or_false, Prod.mk.injEq] at hi
    rcases hi with ⟨-, rfl⟩ | ⟨-, rfl⟩ | ⟨-, rfl⟩ | ⟨-, rfl⟩ <;> decide
  have hround : normalPaymentLoop (fuel + 1) i (b :: pc) =
      if (getOp2 (b :: pc)).opcodeRet ≠ op then false else normalPaymentLoop fuel (i + 1) (getOp2 (b :: pc)).pc := by
    simp only [List.mem_cons, List.not_mem_nil, or_false, Prod.mk.injEq] at hi
    rw [normalPaymentLoop, List.isEmpty_cons, if_neg Bool.false_ne_true]
    rcases hi with ⟨rfl, rfl⟩ | ⟨rfl, rfl⟩ | ⟨rfl, rfl⟩ | ⟨rfl, rfl⟩ <;> simp
  rw [hround]
  split_ifs with hne
  · refine ⟨fun h => (nomatch h), fun ⟨hb, _⟩ => absurd ?_ hne⟩
    have hbyte : b.toNat = op := by
      rw [hb]
      exact toNat_ofNat_lt (hop.2.trans (by decide))
    rw [getOp2_op (by rw [hbyte]; exact hop.1), hbyte]
  · obtain ⟨hb, hpc⟩ := getOp2_opcode hop.1 hop.2.ne (not_not.mp hne)
    rw [hpc, ← hb, UInt8.ofNat_toNat]
    exact ⟨fun h => ⟨rfl, h⟩, fun h => h.2⟩

theorem normalPaymentLoop_five {fuel : Nat} (hle : pc.length ≤ fuel) :
    normalPaymentLoop fuel 5 pc = true ↔ pc = [] := by
  cases fuel with
  | zero => simp [normalPaymentLoop, List.eq_nil_of_length_eq_zero (Nat.le_zero.mp hle)]
  | succ fuel => cases pc <;> simp [normalPaymentLoop]

theorem normalPaymentLoop_nil (fuel i : Nat) : normalPaymentLoop fuel i [] = true := by
  cases fuel <;> rfl

theorem normalPaymentLoop_three {fuel : Nat} (hle : pc.length ≤ fuel) :
    normalPaymentLoop fuel 3 pc = true ↔ IsCheckPrefix pc := by
  unfold IsCheckPrefix
  rcases pc with _ | ⟨b, _ | ⟨b', pc⟩⟩
  · simp [normalPaymentLoop_nil]
  · obtain ⟨fuel, rfl⟩ := Nat.exists_eq_add_of_le' hle
    show normalPaymentLoop (fuel + 1) 3 [b] = true ↔ _
    rw [normalPaymentLoop_asks OP_EQUALVERIFY (by decide)]
    simp [normalPaymentLoop_nil, OP_EQUALVERIFY]
  · obtain ⟨fuel, rfl⟩ := Nat.exists_eq_add_of_le' hle
    show normalPaymentLoop (fuel + pc.length + 1 + 1) 3 (b :: b' :: pc) = true ↔ _
    rw [normalPaymentLoop_asks OP_EQUALVERIFY (by decide), normalPaymentLoop_asks OP_CHECKSIG (by decide),
      normalPaymentLoop_five (Nat.le_add_left _ _)]
    simp [OP_EQUALVERIFY, OP_CHECKSIG]

theorem length_of_failed (h : (getOp2 pc).ok = false) : pc.length ≤ (getOp2 pc).pc.length + 5 := by
  have hpush : ∀ opcode nSize (pc : CScript), (getPush opcode nSize pc).ok = false →
      (getPush opcode nSize pc).pc = pc := by
    intro opcode nSize pc h
    unfold getPush at h ⊢
    split_ifs at h ⊢
    rfl
  have hdata : ∀ opcode nBytes (pc : CScript), nBytes ≤ 4 → (getPushData opcode nBytes pc).ok = false →
      pc.length ≤ (getPushData opcode nBytes pc).pc.length + 4 := by
    intro opcode nBytes pc hn h
    unfold getPushData at h ⊢
    split_ifs at h ⊢
    · exact Nat.le_add_right _ _
    · rw [hpush _ _ _ h, List.length_drop]
      omega
  cases pc with
  | nil => exact Nat.zero_le _
  | cons b pc =>
    unfold getOp2 at h ⊢
    dsimp only at h ⊢
    rw [List.length_cons]
    split_ifs at h ⊢
    · rw [hpush _ _ _ h]
      omega
    · have := hdata _ 1 _ (by omega) h
      omega
    · have := hdata _ 2 _ (by omega) h
      omega
    · have := hdata _ 4 _ le_rfl h
      omega

/-- What the loop accepts: the third instruction is read, and nothing more is asked of it. -/
theorem isNormalPaymentScript_eq_true (script : CScript) : script.isNormalPaymentScript = true ↔
    script.length = 25 ∧ script.take 2 = [0x76, 0xa9] ∧
      ∃ op vch rest, getOp2 (script.drop 2) = ⟨true, op, vch, rest⟩ ∧ IsCheckPrefix rest := by
  rw [isNormalPaymentScript, Bool.and_eq_true, decide_eq_true_iff]
  refine and_congr_right fun hlen => ?_
  obtain ⟨b1, b2, b3, pc, rfl⟩ : ∃ b1 b2 b3 pc, script = b1 :: b2 :: b3 :: pc := by
    rcases script with _ | ⟨b1, _ | ⟨b2, _ | ⟨b3, pc⟩⟩⟩ <;> simp_all
  have hpc : pc.length = 22 := by
    simp only [List.length_cons] at hlen
    omega
  rw [hlen]
  show normalPaymentLoop (24 + 1) 0 (b1 :: b2 :: b3 :: pc) = true ↔ _
  rw [normalPaymentLoop_asks OP_DUP (by decide), normalPaymentLoop_asks OP_HASH160 (by decide)]
  have hthird : normalPaymentLoop 23 2 (b3 :: pc) = normalPaymentLoop 22 3 (getOp2 (b3 :: pc)).pc := by
    rw [normalPaymentLoop, List.isEmpty_cons, if_neg Bool.false_ne_true]
    simp
  have hshort := getOp2_length_lt b3 pc
  rw [List.length_cons, hpc] at hshort
  rw [hthird, normalPaymentLoop_three (by omega)]
  show _ ↔ [b1, b2] = [0x76, 0xa9] ∧
    ∃ op vch rest, getOp2 (b3 :: pc) = ⟨true, op, vch, rest⟩ ∧ IsCheckPrefix rest
  have hiff : IsCheckPrefix (getOp2 (b3 :: pc)).pc ↔
      ∃ op vch rest, getOp2 (b3 :: pc) = ⟨true, op, vch, rest⟩ ∧ IsCheckPrefix rest := by
    constructor
    · intro h
      have hok : (getOp2 (b3 :: pc)).ok = true := by
        -- what a truncated push leaves is too long to be accepted
        by_contra hfailed
        have hlong := length_of_failed (Bool.eq_false_iff.mpr hfailed)
        rw [List.length_cons, hpc] at hlong
        rcases h with h | h | h <;> rw [h] at hlong <;> simp at hlong
      exact ⟨_, _, _, getOp2_eq_of_ok hok, h⟩
    · rintro ⟨op, vch, rest, hread, h⟩
      rw [hread]
      exact h
  rw [hiff, List.cons.injEq, List.cons.injEq]
  show (b1 = 0x76 ∧ b2 = 0xa9 ∧ _) ↔ _
  tauto

theorem getOp2_twenty {b : UInt8} {rest : CScript} {vch : Valtype}
    (h : getOp2 (b :: pc) = ⟨true, 20, vch, rest⟩) :
    b = 0x14 ∧ vch.length = 20 ∧ pc = vch ++ rest := by
  unfold getOp2 at h
  dsimp only at h
  split_ifs at h with h1 h2 h3 h4
  · have hb : 20 = b.toNat := getPush_ok h
    rw [← hb, getPush] at h
    by_cases hlt : pc.length < 20
    · rw [if_pos hlt] at h
      cases h
    rw [if_neg hlt] at h
    obtain ⟨-, -, rfl, rfl⟩ := GetOpRet.mk.inj h
    refine ⟨?_, by rw [List.length_take]; omega, (List.take_append_drop 20 pc).symm⟩
    rw [show b = UInt8.ofNat b.toNat from UInt8.ofNat_toNat.symm, ← hb]
    rfl
  · exact absurd (getPushData_ok h) (by rw [h2]; decide)
  · exact absurd (getPushData_ok h) (by rw [h3]; decide)
  · exact absurd (getPushData_ok h) (by rw [h4]; decide)
  · rw [(GetOpRet.mk.inj h).2.1] at h1
    exact absurd (show 20 < OP_PUSHDATA1 by decide) h1

theorem isPayToPubkeyHash_iff (script : CScript) : IsPayToPubkeyHash script ↔
    script.length = 25 ∧ script.take 2 = [0x76, 0xa9] ∧
      ∃ vch rest, getOp2 (script.drop 2) = ⟨true, 20, vch, rest⟩ ∧ IsCheckPrefix rest := by
  constructor
  · rintro ⟨id, hid, rfl⟩
    refine ⟨by simp [getScriptForDestination, hid], rfl, id, [0x88, 0xac], ?_, .inr (.inr rfl)⟩
    exact getOp2_push20 hid _
  · rintro ⟨hlen, htake, vch, rest, hread, hrest⟩
    obtain ⟨b1, b2, b3, pc, rfl⟩ : ∃ b1 b2 b3 pc, script = b1 :: b2 :: b3 :: pc := by
      rcases script with _ | ⟨b1, _ | ⟨b2, _ | ⟨b3, pc⟩⟩⟩ <;> simp_all
    obtain ⟨rfl, hvch, rfl⟩ := getOp2_twenty hread
    have htake : [b1, b2] = [0x76, 0xa9] := htake
    obtain ⟨rfl, rfl⟩ : b1 = 0x76 ∧ b2 = 0xa9 := by simpa using htake
    -- two bytes are left
    have hsize : rest.length = 2 := by
      simp only [List.length_cons, List.length_append, hvch] at hlen
      omega
    rcases hrest with rfl | rfl | rfl
    · cases hsize
    · cases hsize
    · exact ⟨vch, hvch, rfl⟩

/-- **`IsNormalPaymentScript` is pay-to-pubkey-hash** except for the scripts with another third instruction; its loop
ends for every script. -/
theorem isNormalPaymentScript_iff (script : CScript) :
    (∀ fuel, script.length ≤ fuel →
        normalPaymentLoop fuel 0 script = normalPaymentLoop script.length 0 script) ∧
      ((script.isNormalPaymentScript = true ↔ IsPayToPubkeyHash script) ↔ ¬OtherThirdInstruction script) := by
  refine ⟨fun fuel hle => normalPaymentLoop_fuel _ _ 0 hle le_rfl, ?_⟩
  rw [isNormalPaymentScript_eq_true, isPayToPubkeyHash_iff]
  constructor
  · rintro h ⟨hlen, htake, op, vch, rest, hread, hne, hrest⟩
    obtain ⟨-, -, vch', rest', hread', -⟩ := h.mp ⟨hlen, htake, op, vch, rest, hread, hrest⟩
    exact hne (GetOpRet.mk.inj (hread.symm.trans hread')).2.1
  · refine fun h => ⟨fun ⟨hlen, htake, op, vch, rest, hread, hrest⟩ => ?_,
      fun ⟨hlen, htake, vch, rest, hread, hrest⟩ => ⟨hlen, htake, 20, vch, rest, hread, hrest⟩⟩
    have hop : op = 20 := by
      by_contra hne
      exact h ⟨hlen, htake, op, vch, rest, hread, hne, hrest⟩
    subst hop
    exact ⟨hlen, htake, vch, rest, hread, hrest⟩

/-- `OP_DUP OP_HASH160` and a push of 22 bytes. -/
theorem isNormalPaymentScript_longPush :
    ¬(isNormalPaymentScript (0x76 :: 0xa9 :: 0x16 :: List.replicate 22 0) = true ↔
      IsPayToPubkeyHash (0x76 :: 0xa9 :: 0x16 :: List.replicate 22 0)) := by
  intro h
  obtain ⟨id, -, heq⟩ := h.mp (by decide)
  rw [getScriptForDestination] at heq
  cases heq

end NormalPayment

end Sphinx
