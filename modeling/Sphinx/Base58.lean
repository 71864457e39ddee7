import Sphinx.Util.Radix
import Sphinx.WalletTxRecord

/-!
# Base 58

`EncodeBase58`, `DecodeBase58` and the functions with a checksum, of `base58.cpp`.

A buffer is a list of digits in the order in which the loops go through it, from `rbegin()` on.  A `char` is a byte,
and a `const char*` is the list of the bytes before the zero that ends it.  The vector that a function returns through
a reference is the value of the `Option`.
-/

namespace Sphinx

open Codec Radix

/-- What ends a call. -/
inductive Base58Fault where
  /-- A signed number leaves the range of its type. -/
  | overflow
  /-- A vector of a negative size is asked for. -/
  | lengthError
  /-- `assert(carry == 0)` fails. -/
  | carry
deriving DecidableEq, Repr

/-- All alphanumeric characters except for "0", "I", "O", and "l". -/
def pszBase58 : List UInt8 :=
  "123456789ABCDEFGHJKLMNPQRSTUVWXYZabcdefghijkmnopqrstuvwxyz".toList.map fun c => UInt8.ofNat c.toNat

/-- The loop of `DecodeBase58` over the characters: the buffer, `length` and the rest of the string, or `none` for a
character that is not one of the alphabet. -/
def decodeChars : List UInt8 → List Nat → Nat → Except Base58Fault (Option (List Nat × Nat × List UInt8))
  | [], b256, length => .ok (some (b256, length, []))
  | c :: psz, b256, length =>
    if isSpace c then .ok (some (b256, length, c :: psz))
    else
      match pszBase58.idxOf? c with
      | none => .ok none
      | some ch =>
        -- apply "b256 = b256 * 58 + ch"
        let next := mulAddUsed 256 58 ch length b256
        if next.2.1 ≠ 0 then .error .carry else decodeChars psz next.1 next.2.2

/-- The size of the buffer: the product is one of a `size_t`, the size an `int`. -/
def decodeSize (strlen : Nat) : Int := ((strlen * 733 % 2 ^ 64 / 1000 + 1 : Nat) : Int).bmod (2 ^ 32)

/-- The end of `DecodeBase58`: only spaces may follow, and leading zeroes in the buffer are skipped. -/
def decodeEnd (zeroes : Nat) : Option (List Nat × Nat × List UInt8) → Option (List UInt8)
  | none => none
  | some (b256, length, psz) =>
    if psz.dropWhile isSpace ≠ [] then none
    else some (List.replicate zeroes 0 ++ ((b256.take length).reverse.dropWhile (· = 0)).map UInt8.ofNat)

def decodeBase58 (psz : List UInt8) : Except Base58Fault (Option (List UInt8)) :=
  -- skip leading spaces
  let psz := psz.dropWhile isSpace
  -- skip and count leading '1's; the count is an `int`
  let zeroes := (psz.takeWhile (· = 49)).length
  let psz := psz.dropWhile (· = 49)
  if 2 ^ 31 ≤ zeroes then .error .overflow
  else if decodeSize psz.length < 0 then .error .lengthError
  else (decodeChars psz (List.replicate (decodeSize psz.length).toNat 0) 0).map (decodeEnd zeroes)

/-- `str.c_str()`, up to the zero that ends it as a `const char*`. -/
def cStr (str : List UInt8) : List UInt8 := str.takeWhile (· ≠ 0)

/-- `DecodeBase58(str, vchRet)`. -/
def decodeBase58Str (str : List UInt8) : Except Base58Fault (Option (List UInt8)) := decodeBase58 (cStr str)

/-- The loop of `EncodeBase58` over the bytes. -/
def encodeBytes : List UInt8 → List Nat → Except Base58Fault (List Nat)
  | [], b58 => .ok b58
  | ch :: bytes, b58 =>
    -- apply "b58 = b58 * 256 + ch"
    let next := mulAdd 58 256 ch.toNat b58
    if next.2 ≠ 0 then .error .carry else encodeBytes bytes next.1

/-- The end of `EncodeBase58`: leading zeroes in the buffer are skipped, and the rest is translated. -/
def encodeEnd (zeroes : Nat) (b58 : List Nat) : List UInt8 :=
  List.replicate zeroes 49 ++ (b58.reverse.dropWhile (· = 0)).map fun d => pszBase58.getD d 0

def encodeBase58 (vch : List UInt8) : Except Base58Fault (List UInt8) :=
  -- skip and count leading zeroes; the count is an `int`
  let zeroes := (vch.takeWhile (· = 0)).length
  let bytes := vch.dropWhile (· = 0)
  if 2 ^ 31 ≤ zeroes then .error .overflow
  -- the product is one of a `ptrdiff_t`
  else if 2 ^ 63 ≤ bytes.length * 138 then .error .overflow
  else (encodeBytes bytes (List.replicate (bytes.length * 138 / 100 + 1) 0)).map (encodeEnd zeroes)

variable (hash : List UInt8 → Uint256)

/-- The first four bytes of `Hash(vch.begin(), vch.end())`. -/
def checksum (vch : List UInt8) : List UInt8 := (toLE 32 (hash vch)).take 4

def encodeBase58Check (vchIn : List UInt8) : Except Base58Fault (List UInt8) :=
  encodeBase58 (vchIn ++ checksum hash vchIn)

/-- What `DecodeBase58Check` does with the bytes that were decoded: the checksum is re-calculated, and insured to match
the included one. -/
def verifyChecksum (vchRet : List UInt8) : Option (List UInt8) :=
  if vchRet.length < 4 then none
  else if checksum hash (vchRet.take (vchRet.length - 4)) ≠ vchRet.drop (vchRet.length - 4) then none
  else some (vchRet.take (vchRet.length - 4))

def decodeBase58Check (psz : List UInt8) : Except Base58Fault (Option (List UInt8)) :=
  (decodeBase58 psz).map fun vchRet => vchRet.bind (verifyChecksum hash)

/-- `DecodeBase58Check(str, vchRet)`. -/
def decodeBase58CheckStr (str : List UInt8) : Except Base58Fault (Option (List UInt8)) :=
  decodeBase58Check hash (cStr str)

end Sphinx
