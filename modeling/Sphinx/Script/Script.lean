import Sphinx.Basic
import Sphinx.Util.Text

/-!
# Scripts

`CScript` is a byte vector.  `getOp2` reads one instruction at the front of the bytes still to be
read; like the source it moves the read position also when it fails, since some callers ignore its
result.  The signature-operation counters and the small-integer push are the parts of `CScript`
that block validation uses.

`toString` is `CScript::ToString`, with `ValueString`, `GetOpName` and the two members of `CScriptNum` that
`ValueString` uses.  Pushes of at most four bytes are printed as numbers, longer ones in hexadecimal.
-/

namespace Sphinx

abbrev CScript := List UInt8

namespace CScript

def OP_0 : Nat := 0x00
def OP_PUSHDATA1 : Nat := 0x4c
def OP_PUSHDATA2 : Nat := 0x4d
def OP_PUSHDATA4 : Nat := 0x4e
def OP_1 : Nat := 0x51
def OP_16 : Nat := 0x60
def OP_RETURN : Nat := 0x6a
def OP_DUP : Nat := 0x76
def OP_EQUAL : Nat := 0x87
def OP_EQUALVERIFY : Nat := 0x88
def OP_HASH160 : Nat := 0xa9
def OP_CHECKSIG : Nat := 0xac
def OP_CHECKSIGVERIFY : Nat := 0xad
def OP_CHECKMULTISIG : Nat := 0xae
def OP_CHECKMULTISIGVERIFY : Nat := 0xaf
def OP_INVALIDOPCODE : Nat := 0xff

/-- What `GetOp2` returns and sets: its result, `opcodeRet`, `*pvchRet` and the new `pc` (the bytes
from there on). -/
structure GetOpRet where
  ok : Bool
  opcodeRet : Nat
  vchRet : List UInt8
  pc : CScript
deriving DecidableEq, Repr

/-- The little-endian value of bytes, `memcpy` into an unsigned integer. -/
def fromLE (bytes : List UInt8) : Nat :=
  Nat.ofDigits 256 (bytes.map UInt8.toNat)

/-- The end of `GetOp2` for a push of `nSize` bytes: they must all be there. -/
def getPush (opcode nSize : Nat) (pc : CScript) : GetOpRet :=
  if pc.length < nSize then ⟨false, OP_INVALIDOPCODE, [], pc⟩
  else ⟨true, opcode, pc.take nSize, pc.drop nSize⟩

/-- The length field of `OP_PUSHDATA1/2/4`, `nBytes` wide, and the push after it. -/
def getPushData (opcode nBytes : Nat) (pc : CScript) : GetOpRet :=
  if pc.length < nBytes then ⟨false, OP_INVALIDOPCODE, [], pc⟩
  else getPush opcode (fromLE (pc.take nBytes)) (pc.drop nBytes)

def getOp2 : CScript → GetOpRet
  | [] => ⟨false, OP_INVALIDOPCODE, [], []⟩
  | op :: pc =>
    let opcode := op.toNat
    if opcode < OP_PUSHDATA1 then getPush opcode opcode pc
    else if opcode = OP_PUSHDATA1 then getPushData opcode 1 pc
    else if opcode = OP_PUSHDATA2 then getPushData opcode 2 pc
    else if opcode = OP_PUSHDATA4 then getPushData opcode 4 pc
    else ⟨true, opcode, [], pc⟩

/-- `while (pc < end())` with a `GetOp` in each round, which ends the loop when it fails; `none` when the rounds
run out. -/
def scan {σ β : Type} (done failed : σ → β) (next : σ → GetOpRet → σ ⊕ β) :
    Nat → σ → CScript → Option β
  | fuel, s, pc =>
    if pc.isEmpty then some (done s)
    else match fuel with
      | 0 => none
      | fuel + 1 =>
        let r := getOp2 pc
        if r.ok then (next s r).elim (fun s => scan done failed next fuel s r.pc) some else some (failed s)

def hasCanonicalPushes (script : CScript) : Option Bool :=
  scan (fun _ => true) (fun _ => false) (fun _ r =>
    if OP_16 < r.opcodeRet then .inl ()
    else if r.opcodeRet < OP_PUSHDATA1 ∧ OP_0 < r.opcodeRet ∧ r.vchRet.length = 1 ∧
      (r.vchRet.getD 0 0).toNat ≤ 16 then
      .inr false
    else if r.opcodeRet = OP_PUSHDATA1 ∧ r.vchRet.length < OP_PUSHDATA1 then .inr false
    else if r.opcodeRet = OP_PUSHDATA2 ∧ r.vchRet.length ≤ 0xff then .inr false
    else if r.opcodeRet = OP_PUSHDATA4 ∧ r.vchRet.length ≤ 0xffff then .inr false
    else .inl ()) script.length () script

def find (script : CScript) (op : Nat) : Option Nat :=
  scan id id (fun nFound r => .inl (if r.opcodeRet = op then nFound + 1 else nFound)) script.length 0 script

/-- `DecodeOP_N`, for an opcode in `OP_1 … OP_16` or `OP_0`. -/
def decodeOpN (opcode : Nat) : Nat :=
  if opcode = OP_0 then 0 else opcode - (OP_1 - 1)

/-- What one instruction adds to the signature-operation count. -/
def sigOpsOf (fAccurate : Bool) (lastOpcode opcode : Nat) : Nat :=
  if opcode = OP_CHECKSIG ∨ opcode = OP_CHECKSIGVERIFY then 1
  else if opcode = OP_CHECKMULTISIG ∨ opcode = OP_CHECKMULTISIGVERIFY then
    if fAccurate = true ∧ OP_1 ≤ lastOpcode ∧ lastOpcode ≤ OP_16 then decodeOpN lastOpcode else 20
  else 0

/-- The loop of `GetSigOpCount(bool)`: `n` counted so far, `pc` still to be read.  Every successful
`GetOp` consumes a byte, so as many rounds as there are bytes suffice. -/
def sigOpLoop (fAccurate : Bool) : Nat → Nat → Nat → CScript → Nat
  | 0, n, _, _ => n
  | fuel + 1, n, lastOpcode, pc =>
    if pc.isEmpty then n
    else
      let r := getOp2 pc
      if r.ok then
        sigOpLoop fAccurate fuel (n + sigOpsOf fAccurate lastOpcode r.opcodeRet) r.opcodeRet r.pc
      else n

def getSigOpCount (script : CScript) (fAccurate : Bool) : Nat :=
  sigOpLoop fAccurate script.length 0 OP_INVALIDOPCODE script

def isPayToScriptHash (script : CScript) : Bool :=
  script.length = 23 && (script.getD 0 0).toNat = OP_HASH160 && (script.getD 1 0).toNat = 0x14 &&
    (script.getD 22 0).toNat = OP_EQUAL

/-- The last item a push-only `scriptSig` pushes; `none` when it is malformed or not push-only. -/
def lastPushLoop : Nat → List UInt8 → CScript → Option (List UInt8)
  | 0, data, _ => some data
  | fuel + 1, data, pc =>
    if pc.isEmpty then some data
    else
      let r := getOp2 pc
      if !r.ok then none
      else if OP_16 < r.opcodeRet then none
      else lastPushLoop fuel r.vchRet r.pc

/-- `GetSigOpCount(const CScript& scriptSig)`. -/
def getSigOpCountP2SH (script scriptSig : CScript) : Nat :=
  if !isPayToScriptHash script then getSigOpCount script true
  else match lastPushLoop scriptSig.length [] scriptSig with
    | none => 0
    | some data => getSigOpCount data true

/-- `CScriptNum::serialize` of a non-negative number: little-endian bytes, and one zero byte more
when the top bit of the last one is set. -/
def serializeNum (value : Nat) : List UInt8 :=
  let result := (Nat.digits 256 value).map UInt8.ofNat
  match result.getLast? with
  | none => []
  | some b => if 0x80 ≤ b.toNat then result ++ [0] else result

/-- `CScript() << nHeight`, for the heights of blocks. -/
def pushInt (n : Nat) : CScript :=
  if 1 ≤ n ∧ n ≤ 16 then [UInt8.ofNat (n + (OP_1 - 1))]
  else if n = 0 then [UInt8.ofNat OP_0]
  else UInt8.ofNat (serializeNum n).length :: serializeNum n

/-- The loop of `IsNormalPaymentScript`, which does not look at the result of `GetOp`: `i` instructions
read so far, `pc` still to be read. -/
def normalPaymentLoop : Nat → Nat → CScript → Bool
  | 0, _, _ => true
  | fuel + 1, i, pc =>
    if pc.isEmpty then true
    else
      let r := getOp2 pc
      if i = 0 ∧ r.opcodeRet ≠ OP_DUP then false
      else if i = 1 ∧ r.opcodeRet ≠ OP_HASH160 then false
      else if i = 3 ∧ r.opcodeRet ≠ OP_EQUALVERIFY then false
      else if i = 4 ∧ r.opcodeRet ≠ OP_CHECKSIG then false
      else if i = 5 then false
      else normalPaymentLoop fuel (i + 1) r.pc

def isNormalPaymentScript (script : CScript) : Bool :=
  script.length = 25 && normalPaymentLoop script.length 0 script

def isUnspendable (script : CScript) : Bool :=
  !script.isEmpty && (script.headD 0).toNat = OP_RETURN

/-! ### Printing -/

open Text

/-- `CScriptNum::set_vch`: the top bit of the last byte is the sign. -/
def setVch (vch : List UInt8) : Int :=
  match vch.getLast? with
  | none => 0
  | some back =>
    let result := fromLE vch
    if 0x80 ≤ back.toNat then -((result - 0x80 * 256 ^ (vch.length - 1) : Nat) : Int) else result

def getint (value : Int) : Int :=
  if 2 ^ 31 - 1 < value then 2 ^ 31 - 1 else if value < -2 ^ 31 then -2 ^ 31 else value

def valueString (vch : List UInt8) : List Char :=
  if vch.length ≤ 4 then decimal (getint (setVch vch)) else hexBytes vch

/-- The names of `GetOpName`, from `OP_PUSHDATA1` to `OP_NOP10` in the order of `opcodetype`. -/
def opNames : List String :=
  ["OP_PUSHDATA1", "OP_PUSHDATA2", "OP_PUSHDATA4", "-1", "OP_RESERVED", "1", "2", "3", "4", "5",
    "6", "7", "8", "9", "10", "11", "12", "13", "14", "15", "16", "OP_NOP", "OP_VER", "OP_IF",
    "OP_NOTIF", "OP_VERIF", "OP_VERNOTIF", "OP_ELSE", "OP_ENDIF", "OP_VERIFY", "OP_RETURN",
    "OP_TOALTSTACK", "OP_FROMALTSTACK", "OP_2DROP", "OP_2DUP", "OP_3DUP", "OP_2OVER", "OP_2ROT",
    "OP_2SWAP", "OP_IFDUP", "OP_DEPTH", "OP_DROP", "OP_DUP", "OP_NIP", "OP_OVER", "OP_PICK",
    "OP_ROLL", "OP_ROT", "OP_SWAP", "OP_TUCK", "OP_CAT", "OP_SUBSTR", "OP_LEFT", "OP_RIGHT",
    "OP_SIZE", "OP_INVERT", "OP_AND", "OP_OR", "OP_XOR", "OP_EQUAL", "OP_EQUALVERIFY",
    "OP_RESERVED1", "OP_RESERVED2", "OP_1ADD", "OP_1SUB", "OP_2MUL", "OP_2DIV", "OP_NEGATE",
    "OP_ABS", "OP_NOT", "OP_0NOTEQUAL", "OP_ADD", "OP_SUB", "OP_MUL", "OP_DIV", "OP_MOD",
    "OP_LSHIFT", "OP_RSHIFT", "OP_BOOLAND", "OP_BOOLOR", "OP_NUMEQUAL", "OP_NUMEQUALVERIFY",
    "OP_NUMNOTEQUAL", "OP_LESSTHAN", "OP_GREATERTHAN", "OP_LESSTHANOREQUAL",
    "OP_GREATERTHANOREQUAL", "OP_MIN", "OP_MAX", "OP_WITHIN", "OP_RIPEMD160", "OP_SHA1",
    "OP_SHA256", "OP_HASH160", "OP_HASH256", "OP_CODESEPARATOR", "OP_CHECKSIG", "OP_CHECKSIGVERIFY",
    "OP_CHECKMULTISIG", "OP_CHECKMULTISIGVERIFY", "OP_NOP1", "OP_NOP2", "OP_NOP3", "OP_NOP4",
    "OP_NOP5", "OP_NOP6", "OP_NOP7", "OP_NOP8", "OP_NOP9", "OP_NOP10"]

def getOpName (opcode : Nat) : List Char :=
  (if opcode = OP_0 then "0"
  else if opcode = OP_INVALIDOPCODE then "OP_INVALIDOPCODE"
  else if opcode < OP_PUSHDATA1 then "OP_UNKNOWN"
  else opNames.getD (opcode - OP_PUSHDATA1) "OP_UNKNOWN").toList

/-- The loop of `ToString`: `str` printed so far, `pc` still to be read. -/
def toStringLoop : Nat → List Char → CScript → List Char
  | 0, str, _ => str
  | fuel + 1, str, pc =>
    if pc.isEmpty then str
    else
      let str := if str.isEmpty then str else str ++ [' ']
      let r := getOp2 pc
      if !r.ok then str ++ "[error]".toList
      else if r.opcodeRet ≤ OP_PUSHDATA4 then toStringLoop fuel (str ++ valueString r.vchRet) r.pc
      else toStringLoop fuel (str ++ getOpName r.opcodeRet) r.pc

def toString (script : CScript) : List Char := toStringLoop script.length [] script

end CScript

end Sphinx
