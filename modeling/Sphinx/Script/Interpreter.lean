import Sphinx.Primitives.Transaction

/-!
# The script interpreter

The loop of `EvalScript`.  `interpreter.cpp` has two functions of this name, which differ in what they
check of a push, of a signature and of an unused opcode; `EvalRules` collects these checks, and the two are
`evalScript` applied to their own rules.

A stack is a list with its top first, so that `stacktop(-i)` is element `i - 1`.  Every access is checked: one
outside of the stack is `EvalStop.outOfRange`, which is not the `return false` of a guard.  The bodies of the
disabled opcodes are left out, since the loop returns before it reaches them.
-/

namespace Sphinx

abbrev Valtype := List UInt8

/-- Why `EvalScript` stops before the end of the script. -/
inductive EvalStop
  /-- `return false`. -/
  | fail
  /-- The constructor of `CScriptNum` throws. -/
  | scriptNum
  /-- An access or a removal outside of a stack. -/
  | outOfRange
  /-- More rounds than the loop was given. -/
  | outOfFuel
deriving DecidableEq, Repr

/-- `return false` under a condition. -/
def failIf (c : Bool) : Except EvalStop Unit := if c then .error .fail else .ok ()

/-! ### Numbers and truth values -/

namespace CScriptNum

def nMaxNumSize : Nat := 4

/-- The number has its shortest encoding. -/
def isMinimal (vch : Valtype) : Bool :=
  match vch.getLast? with
  | none => true
  | some back =>
    back.toNat % 0x80 ≠ 0 || !(vch.length ≤ 1 || (vch.getD (vch.length - 2) 0).toNat < 0x80)

/-- `CScriptNum(vch, fRequireMinimal)`. -/
def ofVch (vch : Valtype) (fRequireMinimal : Bool) : Except EvalStop Int :=
  if nMaxNumSize < vch.length then .error .scriptNum
  else if fRequireMinimal && !isMinimal vch then .error .scriptNum
  else .ok (CScript.setVch vch)

/-- `serialize`, which is `getvch`. -/
def serialize (value : Int) : Valtype :=
  let result := (Nat.digits 256 value.natAbs).map UInt8.ofNat
  match result.getLast? with
  | none => []
  | some b =>
    if 0x80 ≤ b.toNat then result ++ [if value < 0 then 0x80 else 0]
    else if value < 0 then result.dropLast ++ [b ||| 0x80]
    else result

end CScriptNum

/-- A byte that is not zero, but a last byte 0x80 is a negative zero. -/
def castToBool : Valtype → Bool
  | [] => false
  | b :: vch => if b = 0 then castToBool vch else !(vch.isEmpty && b = 0x80)

def vchFalse : Valtype := []
def vchTrue : Valtype := [1]

def vchBool (f : Bool) : Valtype := if f then vchTrue else vchFalse

/-! ### Opcodes -/

/-- `OP_1ADD` … `OP_0NOTEQUAL`. -/
inductive UnaryOp
  | add1
  | sub1
  | negate
  | abs
  | not
  | notEqual0
deriving DecidableEq, Repr

def UnaryOp.eval (bn : Int) : UnaryOp → Int
  | .add1 => bn + 1
  | .sub1 => bn - 1
  | .negate => -bn
  | .abs => if bn < 0 then -bn else bn
  | .not => if bn = 0 then 1 else 0
  | .notEqual0 => if bn ≠ 0 then 1 else 0

/-- `OP_ADD` … `OP_MAX`. -/
inductive BinaryOp
  | add
  | sub
  | boolAnd
  | boolOr
  | numEqual
  | numEqualVerify
  | numNotEqual
  | lessThan
  | greaterThan
  | lessThanOrEqual
  | greaterThanOrEqual
  | min
  | max
deriving DecidableEq, Repr

def BinaryOp.eval (bn1 bn2 : Int) : BinaryOp → Int
  | .add => bn1 + bn2
  | .sub => bn1 - bn2
  | .boolAnd => if bn1 ≠ 0 ∧ bn2 ≠ 0 then 1 else 0
  | .boolOr => if bn1 ≠ 0 ∨ bn2 ≠ 0 then 1 else 0
  | .numEqual => if bn1 = bn2 then 1 else 0
  | .numEqualVerify => if bn1 = bn2 then 1 else 0
  | .numNotEqual => if bn1 ≠ bn2 then 1 else 0
  | .lessThan => if bn1 < bn2 then 1 else 0
  | .greaterThan => if bn2 < bn1 then 1 else 0
  | .lessThanOrEqual => if bn1 ≤ bn2 then 1 else 0
  | .greaterThanOrEqual => if bn2 ≤ bn1 then 1 else 0
  | .min => if bn1 < bn2 then bn1 else bn2
  | .max => if bn2 < bn1 then bn1 else bn2

inductive HashOp
  | ripemd160
  | sha1
  | sha256
  | hash160
  | hash256
deriving DecidableEq, Repr

/-- The size of `vchHash`. -/
def HashOp.size : HashOp → Nat
  | .ripemd160 => 20
  | .sha1 => 20
  | .sha256 => 32
  | .hash160 => 20
  | .hash256 => 32

/-- The cases of the `switch`; `fVerify` tells `OP_EQUALVERIFY` from `OP_EQUAL`, and so on. -/
inductive ScriptOp
  | pushNum (n : Int)
  | nop
  | upgradableNop
  | opIf (fNot : Bool)
  | opElse
  | endIf
  | verify
  | opReturn
  | toAltStack
  | fromAltStack
  | drop2
  | dup2
  | dup3
  | over2
  | rot2
  | swap2
  | ifDup
  | depth
  | drop
  | dup
  | nip
  | over
  | pick (fRoll : Bool)
  | rot
  | swap
  | tuck
  | size
  | equal (fVerify : Bool)
  | unary (op : UnaryOp)
  | binary (op : BinaryOp)
  | within
  | hash (op : HashOp)
  | codeSeparator
  | checkSig (fVerify : Bool)
  | checkMultiSig (fVerify : Bool)
deriving DecidableEq, Repr

namespace CScript

def OP_1NEGATE : Nat := 0x4f
def OP_IF : Nat := 0x63
def OP_ENDIF : Nat := 0x68

/-- `OP_CAT`, `OP_SUBSTR`, `OP_LEFT`, `OP_RIGHT`, `OP_INVERT`, `OP_AND`, `OP_OR`, `OP_XOR`, `OP_2MUL`,
`OP_2DIV`, `OP_MUL`, `OP_DIV`, `OP_MOD`, `OP_LSHIFT` and `OP_RSHIFT`. -/
def disabledOpcodes : List Nat :=
  [0x7e, 0x7f, 0x80, 0x81, 0x83, 0x84, 0x85, 0x86, 0x8d, 0x8e, 0x95, 0x96, 0x97, 0x98, 0x99]

/-- The case of an opcode after the pushes, with the numbers of `opcodetype`; `none` is `default`. -/
def scriptOp (opcode : Nat) : Option ScriptOp :=
  if opcode = OP_1NEGATE ∨ (OP_1 ≤ opcode ∧ opcode ≤ OP_16) then
    some (.pushNum ((opcode : Int) - (OP_1 - 1 : Nat)))
  else match opcode with
    | 0x61 => some .nop
    | 0x63 => some (.opIf false)
    | 0x64 => some (.opIf true)
    | 0x67 => some .opElse
    | 0x68 => some .endIf
    | 0x69 => some .verify
    | 0x6a => some .opReturn
    | 0x6b => some .toAltStack
    | 0x6c => some .fromAltStack
    | 0x6d => some .drop2
    | 0x6e => some .dup2
    | 0x6f => some .dup3
    | 0x70 => some .over2
    | 0x71 => some .rot2
    | 0x72 => some .swap2
    | 0x73 => some .ifDup
    | 0x74 => some .depth
    | 0x75 => some .drop
    | 0x76 => some .dup
    | 0x77 => some .nip
    | 0x78 => some .over
    | 0x79 => some (.pick false)
    | 0x7a => some (.pick true)
    | 0x7b => some .rot
    | 0x7c => some .swap
    | 0x7d => some .tuck
    | 0x82 => some .size
    | 0x87 => some (.equal false)
    | 0x88 => some (.equal true)
    | 0x8b => some (.unary .add1)
    | 0x8c => some (.unary .sub1)
    | 0x8f => some (.unary .negate)
    | 0x90 => some (.unary .abs)
    | 0x91 => some (.unary .not)
    | 0x92 => some (.unary .notEqual0)
    | 0x93 => some (.binary .add)
    | 0x94 => some (.binary .sub)
    | 0x9a => some (.binary .boolAnd)
    | 0x9b => some (.binary .boolOr)
    | 0x9c => some (.binary .numEqual)
    | 0x9d => some (.binary .numEqualVerify)
    | 0x9e => some (.binary .numNotEqual)
    | 0x9f => some (.binary .lessThan)
    | 0xa0 => some (.binary .greaterThan)
    | 0xa1 => some (.binary .lessThanOrEqual)
    | 0xa2 => some (.binary .greaterThanOrEqual)
    | 0xa3 => some (.binary .min)
    | 0xa4 => some (.binary .max)
    | 0xa5 => some .within
    | 0xa6 => some (.hash .ripemd160)
    | 0xa7 => some (.hash .sha1)
    | 0xa8 => some (.hash .sha256)
    | 0xa9 => some (.hash .hash160)
    | 0xaa => some (.hash .hash256)
    | 0xab => some .codeSeparator
    | 0xac => some (.checkSig false)
    | 0xad => some (.checkSig true)
    | 0xae => some (.checkMultiSig false)
    | 0xaf => some (.checkMultiSig true)
    | _ => if 0xb0 ≤ opcode ∧ opcode ≤ 0xb9 then some .upgradableNop else none

/-- `operator<<` of a byte vector. -/
def pushVch (b : Valtype) : CScript :=
  let nSize := b.length
  (if nSize < OP_PUSHDATA1 then [UInt8.ofNat nSize]
  else if nSize ≤ 0xff then [UInt8.ofNat OP_PUSHDATA1, UInt8.ofNat nSize]
  else if nSize ≤ 0xffff then
    [UInt8.ofNat OP_PUSHDATA2, UInt8.ofNat nSize, UInt8.ofNat (nSize / 2 ^ 8)]
  else
    [UInt8.ofNat OP_PUSHDATA4, UInt8.ofNat nSize, UInt8.ofNat (nSize / 2 ^ 8),
      UInt8.ofNat (nSize / 2 ^ 16), UInt8.ofNat (nSize / 2 ^ 24)]) ++ b

/-- The inner loop of `FindAndDelete`: copies of `b` at the front are erased. -/
def eraseCopies (b : CScript) : Nat → CScript → CScript
  | 0, pc => pc
  | fuel + 1, pc => if b.isPrefixOf pc then eraseCopies b fuel (pc.drop b.length) else pc

/-- The outer loop of `FindAndDelete`, from `pc` on. -/
def findAndDeleteLoop (b : CScript) : Nat → CScript → CScript
  | 0, pc => pc
  | fuel + 1, pc =>
    let pc := eraseCopies b pc.length pc
    let r := getOp2 pc
    if r.ok then pc.take (pc.length - r.pc.length) ++ findAndDeleteLoop b fuel r.pc else pc

/-- What `FindAndDelete` leaves of the script. -/
def findAndDelete (script b : CScript) : CScript :=
  if b.isEmpty then script else findAndDeleteLoop b (script.length + 1) script

/-- The loop of `IsPushOnly`. -/
def pushOnlyLoop : Nat → CScript → Bool
  | 0, _ => true
  | fuel + 1, pc =>
    if pc.isEmpty then true
    else
      let r := getOp2 pc
      if !r.ok then false
      else if OP_16 < r.opcodeRet then false
      else pushOnlyLoop fuel r.pc

def isPushOnly (script : CScript) : Bool := pushOnlyLoop script.length script

end CScript

/-! ### The stacks -/

def stacktop (stack : List Valtype) (i : Nat) : Except EvalStop Valtype :=
  if 1 ≤ i ∧ i ≤ stack.length then .ok (stack.getD (i - 1) []) else .error .outOfRange

def popstack (stack : List Valtype) : Except EvalStop (List Valtype) :=
  if stack.isEmpty then .error .outOfRange else .ok stack.tail

/-- `n` times `popstack`. -/
def popstacks : Nat → List Valtype → Except EvalStop (List Valtype)
  | 0, stack => .ok stack
  | n + 1, stack => do
    let stack ← popstack stack
    popstacks n stack

/-- `stack.erase(stack.end() - i, stack.end() - j)`. -/
def eraseRange (stack : List Valtype) (i j : Nat) : Except EvalStop (List Valtype) :=
  if j ≤ i ∧ i ≤ stack.length then .ok (stack.take j ++ stack.drop i) else .error .outOfRange

/-- `stack.insert(stack.end() - i, vch)`. -/
def insertAt (stack : List Valtype) (i : Nat) (vch : Valtype) : Except EvalStop (List Valtype) :=
  if i ≤ stack.length then .ok (stack.take i ++ vch :: stack.drop i) else .error .outOfRange

/-- `swap(stacktop(-i), stacktop(-j))`. -/
def swapTops (stack : List Valtype) (i j : Nat) : Except EvalStop (List Valtype) := do
  let vch1 ← stacktop stack i
  let vch2 ← stacktop stack j
  return (stack.set (i - 1) vch2).set (j - 1) vch1

/-! ### Evaluation -/

/-- The hash functions and the signatures. -/
structure ScriptCrypto where
  hash : HashOp → Valtype → Valtype
  length_hash : ∀ op vch, (hash op vch).length = op.size
  /-- `CPubKey::CheckLowS`. -/
  checkLowS : Valtype → Bool
  /-- `CPubKey::Verify`, of the bytes of a valid public key. -/
  verify : Valtype → Uint256 → Valtype → Bool
  /-- The hash of the serialized transaction and hash type, `ss << txTmp << nHashType`. -/
  hashTx : CTransaction → Int → Uint256

/-- What the two `EvalScript` functions check in their own ways. -/
structure EvalRules where
  crypto : ScriptCrypto
  fRequireMinimal : Bool
  checkPush : Valtype → Nat → Bool
  fDiscourageNops : Bool
  fNullDummy : Bool
  /-- The answer to a signature check of `vchSig`, `vchPubKey` and `scriptCode`, unless it fails the script. -/
  checkSig : Valtype → Valtype → CScript → Except EvalStop Bool

structure EvalState where
  stack : List Valtype
  altstack : List Valtype := []
  /-- The innermost conditional first. -/
  vfExec : List Bool := []
  nOpCount : Nat := 0
  /-- The bytes from `pc` on. -/
  pc : CScript
  /-- The bytes from `pbegincodehash` on. -/
  codehash : CScript
deriving DecidableEq, Repr

/-- The signature loop of `OP_CHECKMULTISIG`: `isig` and `ikey` are the positions of the next signature and
key.  A round begins with at most as many signatures as keys. -/
def multiSigLoop (rules : EvalRules) (stack : List Valtype) (scriptCode : CScript) :
    Nat → Nat → Nat → Nat → Except EvalStop Bool
  | _, 0, _, _ => .ok true
  | 0, _ + 1, _, _ => .ok false
  | nKeysCount + 1, nSigsCount + 1, ikey, isig => do
    let vchSig ← stacktop stack isig
    let vchPubKey ← stacktop stack ikey
    let fOk ← rules.checkSig vchSig vchPubKey scriptCode
    let nSigsLeft := if fOk then nSigsCount else nSigsCount + 1
    if nKeysCount < nSigsLeft then .ok false
    else multiSigLoop rules stack scriptCode nKeysCount nSigsLeft (ikey + 1) (if fOk then isig + 1 else isig)

/-- The signatures of `OP_CHECKMULTISIG` are dropped from the script code. -/
def dropSigs (stack : List Valtype) (isig : Nat) : Nat → CScript → Except EvalStop CScript
  | 0, scriptCode => .ok scriptCode
  | n + 1, scriptCode => do
    let vchSig ← stacktop stack isig
    dropSigs stack (isig + 1) n (scriptCode.findAndDelete (CScript.pushVch vchSig))

/-- Push the answer of a check and, for the opcode with `VERIFY`, pop it again if it is true. -/
def pushAnswer (st : EvalState) (stack : List Valtype) (fSuccess fVerify : Bool) :
    Except EvalStop EvalState := do
  let stack := vchBool fSuccess :: stack
  if fVerify then
    if fSuccess then
      let stack ← popstack stack
      return { st with stack := stack }
    else .error .fail
  else return { st with stack := stack }

def evalCheckSig (rules : EvalRules) (fVerify : Bool) (st : EvalState) : Except EvalStop EvalState := do
  failIf (st.stack.length < 2)
  let vchSig ← stacktop st.stack 2
  let vchPubKey ← stacktop st.stack 1
  let scriptCode := st.codehash.findAndDelete (CScript.pushVch vchSig)
  let fSuccess ← rules.checkSig vchSig vchPubKey scriptCode
  let stack ← popstack st.stack
  let stack ← popstack stack
  pushAnswer st stack fSuccess fVerify

def evalCheckMultiSig (rules : EvalRules) (fVerify : Bool) (st : EvalState) :
    Except EvalStop EvalState := do
  failIf (st.stack.length < 1)
  let vch ← stacktop st.stack 1
  let nKeysCount := CScript.getint (← CScriptNum.ofVch vch rules.fRequireMinimal)
  failIf (nKeysCount < 0 || 20 < nKeysCount)
  let nKeysCount := nKeysCount.toNat
  let nOpCount := st.nOpCount + nKeysCount
  failIf (201 < nOpCount)
  let ikey := 2
  let i := 2 + nKeysCount
  failIf (st.stack.length < i)
  let vch ← stacktop st.stack i
  let nSigsCount := CScript.getint (← CScriptNum.ofVch vch rules.fRequireMinimal)
  failIf (nSigsCount < 0 || (nKeysCount : Int) < nSigsCount)
  let nSigsCount := nSigsCount.toNat
  let isig := i + 1
  let i := i + 1 + nSigsCount
  failIf (st.stack.length < i)
  let scriptCode ← dropSigs st.stack isig nSigsCount st.codehash
  let fSuccess ← multiSigLoop rules st.stack scriptCode nKeysCount nSigsCount ikey isig
  let stack ← popstacks (i - 1) st.stack
  -- one more element is consumed, whose contents are only checked under `NULLDUMMY`
  failIf (stack.length < 1)
  let vch ← stacktop stack 1
  failIf (rules.fNullDummy && !vch.isEmpty)
  let stack ← popstack stack
  pushAnswer { st with nOpCount := nOpCount } stack fSuccess fVerify

/-- The case of the `switch`. -/
def evalOp (rules : EvalRules) (fExec : Bool) (st : EvalState) : ScriptOp → Except EvalStop EvalState
  | .pushNum n => return { st with stack := CScriptNum.serialize n :: st.stack }
  | .nop => return st
  | .upgradableNop => do
    failIf rules.fDiscourageNops
    return st
  | .opIf fNot =>
    if fExec then do
      failIf (st.stack.length < 1)
      let vch ← stacktop st.stack 1
      let fValue := castToBool vch ^^ fNot
      let stack ← popstack st.stack
      return { st with stack := stack, vfExec := fValue :: st.vfExec }
    else return { st with vfExec := false :: st.vfExec }
  | .opElse =>
    match st.vfExec with
    | [] => .error .fail
    | f :: vfExec => return { st with vfExec := (!f) :: vfExec }
  | .endIf =>
    match st.vfExec with
    | [] => .error .fail
    | _ :: vfExec => return { st with vfExec := vfExec }
  | .verify => do
    failIf (st.stack.length < 1)
    let vch ← stacktop st.stack 1
    failIf (!castToBool vch)
    let stack ← popstack st.stack
    return { st with stack := stack }
  | .opReturn => .error .fail
  | .toAltStack => do
    failIf (st.stack.length < 1)
    let vch ← stacktop st.stack 1
    let stack ← popstack st.stack
    return { st with stack := stack, altstack := vch :: st.altstack }
  | .fromAltStack => do
    failIf (st.altstack.length < 1)
    let vch ← stacktop st.altstack 1
    let altstack ← popstack st.altstack
    return { st with stack := vch :: st.stack, altstack := altstack }
  | .drop2 => do
    failIf (st.stack.length < 2)
    let stack ← popstack st.stack
    let stack ← popstack stack
    return { st with stack := stack }
  | .dup2 => do
    failIf (st.stack.length < 2)
    let vch1 ← stacktop st.stack 2
    let vch2 ← stacktop st.stack 1
    return { st with stack := vch2 :: vch1 :: st.stack }
  | .dup3 => do
    failIf (st.stack.length < 3)
    let vch1 ← stacktop st.stack 3
    let vch2 ← stacktop st.stack 2
    let vch3 ← stacktop st.stack 1
    return { st with stack := vch3 :: vch2 :: vch1 :: st.stack }
  | .over2 => do
    failIf (st.stack.length < 4)
    let vch1 ← stacktop st.stack 4
    let vch2 ← stacktop st.stack 3
    return { st with stack := vch2 :: vch1 :: st.stack }
  | .rot2 => do
    failIf (st.stack.length < 6)
    let vch1 ← stacktop st.stack 6
    let vch2 ← stacktop st.stack 5
    let stack ← eraseRange st.stack 6 4
    return { st with stack := vch2 :: vch1 :: stack }
  | .swap2 => do
    failIf (st.stack.length < 4)
    let stack ← swapTops st.stack 4 2
    let stack ← swapTops stack 3 1
    return { st with stack := stack }
  | .ifDup => do
    failIf (st.stack.length < 1)
    let vch ← stacktop st.stack 1
    return if castToBool vch then { st with stack := vch :: st.stack } else st
  | .depth => return { st with stack := CScriptNum.serialize st.stack.length :: st.stack }
  | .drop => do
    failIf (st.stack.length < 1)
    let stack ← popstack st.stack
    return { st with stack := stack }
  | .dup => do
    failIf (st.stack.length < 1)
    let vch ← stacktop st.stack 1
    return { st with stack := vch :: st.stack }
  | .nip => do
    failIf (st.stack.length < 2)
    let stack ← eraseRange st.stack 2 1
    return { st with stack := stack }
  | .over => do
    failIf (st.stack.length < 2)
    let vch ← stacktop st.stack 2
    return { st with stack := vch :: st.stack }
  | .pick fRoll => do
    failIf (st.stack.length < 2)
    let vch ← stacktop st.stack 1
    let n := CScript.getint (← CScriptNum.ofVch vch rules.fRequireMinimal)
    let stack ← popstack st.stack
    failIf (n < 0 || (stack.length : Int) ≤ n)
    let n := n.toNat
    let vch ← stacktop stack (n + 1)
    let stack ← if fRoll then eraseRange stack (n + 1) n else pure stack
    return { st with stack := vch :: stack }
  | .rot => do
    failIf (st.stack.length < 3)
    let stack ← swapTops st.stack 3 2
    let stack ← swapTops stack 2 1
    return { st with stack := stack }
  | .swap => do
    failIf (st.stack.length < 2)
    let stack ← swapTops st.stack 2 1
    return { st with stack := stack }
  | .tuck => do
    failIf (st.stack.length < 2)
    let vch ← stacktop st.stack 1
    let stack ← insertAt st.stack 2 vch
    return { st with stack := stack }
  | .size => do
    failIf (st.stack.length < 1)
    let vch ← stacktop st.stack 1
    return { st with stack := CScriptNum.serialize vch.length :: st.stack }
  | .equal fVerify => do
    failIf (st.stack.length < 2)
    let vch1 ← stacktop st.stack 2
    let vch2 ← stacktop st.stack 1
    let stack ← popstack st.stack
    let stack ← popstack stack
    pushAnswer st stack (vch1 = vch2) fVerify
  | .unary op => do
    failIf (st.stack.length < 1)
    let vch ← stacktop st.stack 1
    let bn ← CScriptNum.ofVch vch rules.fRequireMinimal
    let stack ← popstack st.stack
    return { st with stack := CScriptNum.serialize (op.eval bn) :: stack }
  | .binary op => do
    failIf (st.stack.length < 2)
    let vch1 ← stacktop st.stack 2
    let bn1 ← CScriptNum.ofVch vch1 rules.fRequireMinimal
    let vch2 ← stacktop st.stack 1
    let bn2 ← CScriptNum.ofVch vch2 rules.fRequireMinimal
    let stack ← popstack st.stack
    let stack ← popstack stack
    let stack := CScriptNum.serialize (op.eval bn1 bn2) :: stack
    if op = .numEqualVerify then do
      let vch ← stacktop stack 1
      failIf (!castToBool vch)
      let stack ← popstack stack
      return { st with stack := stack }
    else return { st with stack := stack }
  | .within => do
    failIf (st.stack.length < 3)
    let vch1 ← stacktop st.stack 3
    let bn1 ← CScriptNum.ofVch vch1 rules.fRequireMinimal
    let vch2 ← stacktop st.stack 2
    let bn2 ← CScriptNum.ofVch vch2 rules.fRequireMinimal
    let vch3 ← stacktop st.stack 1
    let bn3 ← CScriptNum.ofVch vch3 rules.fRequireMinimal
    let stack ← popstacks 3 st.stack
    return { st with stack := vchBool (bn2 ≤ bn1 ∧ bn1 < bn3) :: stack }
  | .hash op => do
    failIf (st.stack.length < 1)
    let vch ← stacktop st.stack 1
    let stack ← popstack st.stack
    return { st with stack := rules.crypto.hash op vch :: stack }
  | .codeSeparator => return { st with codehash := st.pc }
  | .checkSig fVerify => evalCheckSig rules fVerify st
  | .checkMultiSig fVerify => evalCheckMultiSig rules fVerify st

/-- The part of a round after an instruction is read. -/
def evalInstruction (rules : EvalRules) (fExec : Bool) (opcode : Nat) (vchPushValue : Valtype)
    (st : EvalState) : Except EvalStop EvalState :=
  if fExec && opcode ≤ CScript.OP_PUSHDATA4 then do
    failIf (!rules.checkPush vchPushValue opcode)
    return { st with stack := vchPushValue :: st.stack }
  else if fExec || (CScript.OP_IF ≤ opcode && opcode ≤ CScript.OP_ENDIF) then
    match CScript.scriptOp opcode with
    | none => .error .fail
    | some op => evalOp rules fExec st op
  else return st

/-- One round of the loop. -/
def evalStep (rules : EvalRules) (st : EvalState) : Except EvalStop EvalState := do
  let fExec := !st.vfExec.contains false
  let r := CScript.getOp2 st.pc
  failIf (!r.ok)
  failIf (520 < r.vchRet.length)
  let nOpCount := if CScript.OP_16 < r.opcodeRet then st.nOpCount + 1 else st.nOpCount
  failIf (CScript.OP_16 < r.opcodeRet && 201 < nOpCount)
  failIf (CScript.disabledOpcodes.contains r.opcodeRet)
  let st ← evalInstruction rules fExec r.opcodeRet r.vchRet { st with pc := r.pc, nOpCount := nOpCount }
  failIf (1000 < st.stack.length + st.altstack.length)
  return st

def evalLoop (rules : EvalRules) : Nat → EvalState → Except EvalStop EvalState
  | fuel, st =>
    if st.pc.isEmpty then .ok st
    else match fuel with
      | 0 => .error .outOfFuel
      | fuel + 1 => do
        let st ← evalStep rules st
        evalLoop rules fuel st

/-- `EvalScript` with the given rules: the stack that it leaves if it returns true. -/
def evalScript (rules : EvalRules) (stack : List Valtype) (script : CScript) :
    Except EvalStop (List Valtype) := do
  failIf (10000 < script.length)
  let st ← evalLoop rules script.length { stack := stack, pc := script, codehash := script }
  failIf (!st.vfExec.isEmpty)
  return st.stack

end Sphinx
