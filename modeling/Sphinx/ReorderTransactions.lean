import Mathlib.Data.List.Sort
import Sphinx.Primitives.Serialize
import Sphinx.Wallet

/-!
# The order of the wallet's transactions

`CWalletDB::ReorderTransactions` and `ListAccountCreditDebit` of `walletdb.cpp`: wallets from before there were order
positions get them by time.

A record of the wallet file holds the value that was written last.  A write may fail, which ends the function, apart
from the last one, whose result is not looked at.
-/

namespace Sphinx

open Codec

/-- `CAccountingEntry`.  A string is a vector of bytes. -/
structure CAccountingEntry where
  strAccount : List UInt8 := []
  nCreditDebit : CAmount := 0
  nTime : Int := 0
  strOtherAccount : List UInt8 := []
  strComment : List UInt8 := []
  nOrderPos : Int := -1
  nEntryNo : Nat := 0
deriving DecidableEq, Repr

/-- The keys of the records: a transaction, an accounting entry of an account, and `nOrderPosNext`. -/
inductive OrderKey where
  | tx (hash : Uint256)
  | acentry (strAccount : List UInt8) (nEntryNo : Nat)
  | orderposnext
deriving DecidableEq, Repr

/-- What the function works on: the wallet in memory and the records. -/
structure OrderWallet where
  mapWallet : StdMap Uint256 CWalletTx := ∅
  nOrderPosNext : Int := 0
  txRecords : StdMap Uint256 CWalletTx := ∅
  acentryRecords : StdMap (List UInt8 × Nat) CAccountingEntry := ∅
  orderposnextRecord : Option Int := none

/-! ### The accounting entries -/

/-- The key `("acentry", strAccount, nEntryNo)`, as it is written. -/
def acentryKey (k : List UInt8 × Nat) : List UInt8 :=
  writeBytes ("acentry".toList.map fun c => UInt8.ofNat c.toNat) ++ (writeBytes k.1 ++ toLE 8 k.2)

/-- The records of the accounting entries in the order of their keys; the account and the number are read from the
key. -/
def acentryCursor (records : StdMap (List UInt8 × Nat) CAccountingEntry) : List CAccountingEntry :=
  (records.entries.map fun r => { r.2 with strAccount := r.1.1, nEntryNo := r.1.2 }).insertionSort fun a b =>
    ¬ acentryKey (b.strAccount, b.nEntryNo) < acentryKey (a.strAccount, a.nEntryNo)

/-- `ListAccountCreditDebit`: from the first record that is not before the first entry of the account, to the last one
of it.  An account "*" stands for all. -/
def listAccountCreditDebit (records : StdMap (List UInt8 × Nat) CAccountingEntry) (strAccount : List UInt8) :
    List CAccountingEntry :=
  let fAllAccounts := strAccount = [42]
  ((acentryCursor records).dropWhile fun acentry =>
      acentryKey (acentry.strAccount, acentry.nEntryNo) <
        acentryKey (if fAllAccounts then [] else strAccount, 0)).takeWhile
    fun acentry => fAllAccounts ∨ acentry.strAccount = strAccount

/-! ### The positions -/

/-- An element of `txByTime`. -/
inductive OrderItem where
  | tx (hash : Uint256) (wtx : CWalletTx)
  | acentry (entry : CAccountingEntry)

namespace OrderItem

def nTime : OrderItem → Int
  | tx _ wtx => wtx.nTimeReceived
  | acentry entry => entry.nTime

def nOrderPos : OrderItem → Int
  | tx _ wtx => wtx.nOrderPos
  | acentry entry => entry.nOrderPos

def setOrderPos (nOrderPos : Int) : OrderItem → OrderItem
  | tx hash wtx => tx hash { wtx with nOrderPos := nOrderPos }
  | acentry entry => acentry { entry with nOrderPos := nOrderPos }

end OrderItem

/-- The numbers of the loop. -/
structure OrderScan where
  nOrderPosNext : Int := 0
  nOrderPosOffsets : List Int := []

namespace OrderScan

section

variable (s : OrderScan) (nOrderPos : Int)

/-- How many of the positions that were given out are not behind this one. -/
def nOrderPosOff : Int :=
  s.nOrderPosOffsets.countP fun nOffsetStart => nOffsetStart ≤ nOrderPos

/-- The new position. -/
def place : Int :=
  if nOrderPos = -1 then s.nOrderPosNext else nOrderPos + s.nOrderPosOff nOrderPos

/-- The numbers afterwards. -/
def next : OrderScan :=
  if nOrderPos = -1 then ⟨s.nOrderPosNext + 1, s.nOrderPosOffsets ++ [s.nOrderPosNext]⟩
  else { s with nOrderPosNext := max s.nOrderPosNext (s.place nOrderPos + 1) }

/-- Whether the position is written. -/
def writes : Bool := nOrderPos = -1 || s.nOrderPosOff nOrderPos ≠ 0

end

end OrderScan

namespace OrderWallet

/-- `txByTime`: the transactions in the order of `mapWallet`, and then the accounting entries of the account "", sorted
by time. -/
def txByTime (w : OrderWallet) : List OrderItem :=
  let txs := (w.mapWallet.entries.insertionSort fun a b => a.1 ≤ b.1).map fun e => OrderItem.tx e.1 e.2
  let acentries := (listAccountCreditDebit w.acentryRecords []).map OrderItem.acentry
  (txs ++ acentries).insertionSort fun a b => a.nTime ≤ b.nTime

variable (getHash : CTransaction → Uint256) (fails : OrderKey → Bool)

/-- The element is changed in memory. -/
def assign (w : OrderWallet) : OrderItem → OrderWallet
  | .tx hash wtx => { w with mapWallet := w.mapWallet.insert hash wtx }
  | .acentry _ => w

/-- `WriteTx` or `WriteAccountingEntry`. -/
def write (w : OrderWallet) : OrderItem → Option OrderWallet
  | .tx _ wtx =>
    if fails (.tx (getHash wtx.tx)) then none
    else some { w with txRecords := w.txRecords.insert (getHash wtx.tx) wtx }
  | .acentry entry =>
    if fails (.acentry entry.strAccount entry.nEntryNo) then none
    else some { w with acentryRecords := w.acentryRecords.insert (entry.strAccount, entry.nEntryNo) entry }

/-- One round. -/
def reorderRound (s : OrderWallet × OrderScan) (item : OrderItem) : Option (OrderWallet × OrderScan) :=
  let item' := item.setOrderPos (s.2.place item.nOrderPos)
  let w := s.1.assign item'
  if s.2.writes item.nOrderPos then (write getHash fails w item').map fun w => (w, s.2.next item.nOrderPos)
  else some (w, s.2.next item.nOrderPos)

/-- `ReorderTransactions`; `none` is `DB_LOAD_FAIL`. -/
def reorderTransactions (w : OrderWallet) : Option OrderWallet :=
  (w.txByTime.foldlM (reorderRound getHash fails) (w, {})).map fun (w, scan) =>
    { w with
      nOrderPosNext := scan.nOrderPosNext
      orderposnextRecord := if fails .orderposnext then w.orderposnextRecord else some scan.nOrderPosNext }

end OrderWallet

end Sphinx
