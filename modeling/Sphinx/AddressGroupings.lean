import Mathlib.Data.Finset.Option
import Mathlib.Data.Finset.Sort
import Sphinx.Script.Sign
import Sphinx.Wallet

/-!
# Groups of addresses

`CWallet::GetAddressGroupings` of `wallet.cpp`, with `ExtractDestination` and `IsChange`.

The merged groups are allocated with `new` and freed with `delete`: a pointer is a number, and the heap has what is
allocated at it.  A function that uses a pointer to a freed group gives `none`.
-/

namespace Sphinx

/-- The destinations that `ExtractDestination` gives. -/
inductive CTxDestination
  | keyID (id : Valtype)
  | scriptID (id : Valtype)
deriving DecidableEq, Repr

/-- `ExtractDestination(scriptPubKey, addressRet)`, if it returns true. -/
def extractDestination (crypto : ScriptCrypto) (scriptPubKey : CScript) : Option CTxDestination :=
  match scriptPubKey.solver with
  | some (.pubkey, vSolutions) => some (.keyID (pubKeyID crypto (vSolutions.headD [])))
  | some (.pubkeyhash, vSolutions) => some (.keyID (vSolutions.headD []))
  | some (.scripthash, vSolutions) => some (.scriptID (vSolutions.headD []))
  | _ => none

/-- What has been allocated with `new`, and not yet freed. -/
abbrev GroupHeap := StdMap Nat (Finset CTxDestination)

/-- What the groups depend on apart from the transactions. -/
structure GroupingCtx where
  crypto : ScriptCrypto
  /-- `::IsMine(keystore, scriptPubKey)`. -/
  isMine : CScript → Nat
  /-- `mapAddressBook.count(address)`. -/
  inAddressBook : CTxDestination → Bool
  /-- The order of a `set< set<CTxDestination> >`. -/
  sortGroupings : List (Finset CTxDestination) → List (Finset CTxDestination)
  sortGroupings_perm : ∀ groupings, (sortGroupings groupings).Perm groupings
  /-- `new set<CTxDestination>`: it can be the address of a freed group. -/
  newGroup : GroupHeap → Nat
  newGroup_fresh : ∀ heap : GroupHeap, heap.lookup (newGroup heap) = none

namespace CWallet

variable (ctx : GroupingCtx) (w : CWallet)

def isChange (txout : CTxOut) : Bool :=
  ctx.isMine txout.scriptPubKey ≠ ISMINE_NO &&
    match extractDestination ctx.crypto txout.scriptPubKey with
    | none => true
    | some address => !ctx.inAddressBook address

/-- The address of an input: "If this input isn't mine, ignore it". -/
def inputAddress (txin : CTxIn) : Option CTxDestination :=
  if !w.isMineIn ctx.isMine txin then none
  else (w.output txin.prevout).bind fun txout => extractDestination ctx.crypto txout.scriptPubKey

/-- The address of a change output. -/
def changeAddress (txout : CTxOut) : Option CTxDestination :=
  if isChange ctx txout then extractDestination ctx.crypto txout.scriptPubKey else none

/-- The address of an output of the wallet. -/
def loneAddress (txout : CTxOut) : Option CTxDestination :=
  if ctx.isMine txout.scriptPubKey ≠ ISMINE_NO then extractDestination ctx.crypto txout.scriptPubKey else none

def inputAddresses (tx : CTransaction) : List CTxDestination := tx.vin.filterMap (w.inputAddress ctx)

def changeAddresses (tx : CTransaction) : List CTxDestination := tx.vout.filterMap (changeAddress ctx)

def loneAddresses (tx : CTransaction) : List CTxDestination := tx.vout.filterMap (loneAddress ctx)

/-- The addresses of the inputs and of the change, for a transaction whose first input is the wallet's. -/
def inputGrouping (tx : CTransaction) : Finset CTxDestination :=
  if !(tx.vin.head?.any (w.isMineIn ctx.isMine)) then ∅
  else if w.inputAddresses ctx tx = [] then ∅
  else (w.inputAddresses ctx tx ++ changeAddresses ctx tx).toFinset

/-- What a transaction adds to `groupings`. -/
def txGroupings (tx : CTransaction) : List (Finset CTxDestination) :=
  (if w.inputGrouping ctx tx = ∅ then [] else [w.inputGrouping ctx tx]) ++
    (loneAddresses ctx tx).map fun address => {address}

/-- `groupings`, in the order of the set. -/
def groupings : List (Finset CTxDestination) :=
  ctx.sortGroupings (w.mapWallet.entries.flatMap fun walletEntry => w.txGroupings ctx walletEntry.2.tx).dedup

end CWallet

/-! ### The merge of the groups -/

structure GroupState where
  heap : GroupHeap := ∅
  /-- The pointers to the groups. -/
  uniqueGroupings : Finset Nat := ∅
  setmap : CTxDestination → Option Nat := fun _ => none

namespace GroupState

/-- The pointers to the groups that a new group hits, in their order. -/
def hits (st : GroupState) (grouping : Finset CTxDestination) : List Nat :=
  (grouping.biUnion fun address => (st.setmap address).toFinset).sort

/-- One round of the loop over `hits`. -/
def mergeHit (merged : Nat) (st : GroupState) (hit : Nat) : Option GroupState :=
  (st.heap.lookup hit).bind fun hitGroup =>
    (st.heap.lookup merged).map fun mergedGroup =>
      { st with
        heap := (st.heap.insert merged (mergedGroup ∪ hitGroup)).erase hit
        uniqueGroupings := st.uniqueGroupings.erase hit }

/-- One round of the loop over `groupings`. -/
def mergeGrouping (newGroup : GroupHeap → Nat) (st : GroupState) (grouping : Finset CTxDestination) :
    Option GroupState :=
  let merged := newGroup st.heap
  let st1 := { st with heap := st.heap.insert merged grouping }
  ((st.hits grouping).foldlM (mergeHit merged) st1).bind fun st2 =>
    (st2.heap.lookup merged).map fun mergedGroup =>
      { st2 with
        uniqueGroupings := insert merged st2.uniqueGroupings
        setmap := fun element => if element ∈ mergedGroup then some merged else st2.setmap element }

/-- One round of the last loop. -/
def collect (r : Finset (Finset CTxDestination) × GroupHeap) (uniqueGrouping : Nat) :
    Option (Finset (Finset CTxDestination) × GroupHeap) :=
  (r.2.lookup uniqueGrouping).map fun group => (insert group r.1, r.2.erase uniqueGrouping)

end GroupState

namespace CWallet

variable (ctx : GroupingCtx) (w : CWallet)

def getAddressGroupings : Option (Finset (Finset CTxDestination)) :=
  ((w.groupings ctx).foldlM (GroupState.mergeGrouping ctx.newGroup) {}).bind fun st =>
    (st.uniqueGroupings.sort.foldlM GroupState.collect (∅, st.heap)).map Prod.fst

end CWallet

end Sphinx
