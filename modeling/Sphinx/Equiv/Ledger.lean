import Sphinx.Equiv.DisconnectBlock
import Sphinx.Script.Equiv.Script

/-!
# The transaction index of a chain

A chain is, for the transaction index, the sequence of its transactions with their positions on disk.
`ledgerIndex` is the index after connecting them one by one, and `Ledger` holds for the sequences that
`ConnectBlock` lets pass: each transaction finds its inputs unspent, and a coinbase starts with the
height of its block.

* `Ledger.spec`: no two transactions share a hash, the index has one entry for each of them, and a
  spent pointer is null unless some transaction of the sequence spends the output, in which case it is
  that transaction's position and no other spends the output;
* `Ledger.unspentValue_append`: a further transaction changes the total value of the unspent outputs
  by what it pays out minus what it takes in.
-/

namespace Sphinx

open Function (update update_of_ne update_self)

variable {env : Env} {T : Set CTransaction}
variable {M : TxIndexMap} {o : COutPoint} {p : CDiskTxPos}
variable {q : CDiskTxPos}

/-- A transaction of the chain: where it is on disk, and the height of its block. -/
structure Placed where
  tx : CTransaction
  pos : CDiskTxPos
  nHeight : Nat

/-- The index after connecting a sequence of transactions. -/
def ledgerIndex (env : Env) (txs : List Placed) : TxIndexMap :=
  txs.foldl (fun M x => connectMap env M x.tx x.pos) fun _ => none

theorem ledgerIndex_append (txs : List Placed) (x : Placed) :
    ledgerIndex env (txs ++ [x]) = connectMap env (ledgerIndex env txs) x.tx x.pos := by
  rw [ledgerIndex, List.foldl_append]
  rfl

/-- The coinbase script of a transaction, empty without inputs. -/
def coinbaseScript (tx : CTransaction) : CScript :=
  (tx.vin.headD ⟨COutPoint.null, [], 0⟩).scriptSig

/-- What is known of a transaction that is connected after the transactions `txs`. -/
structure CanFollow (env : Env) (txs : List Placed) (x : Placed) : Prop where
  checked : x.tx.checkTransaction = .ok ()
  inputsOk : ∃ pool, InputsOk env pool (ledgerIndex env txs) x.tx
  onDisk : env.readTxFromDisk x.pos = some x.tx
  pos_ne : x.pos ≠ CDiskTxPos.memoryPool
  nHeight_lt : x.nHeight < 2 ^ 31
  coinbase : x.tx.isCoinBase = true → CScript.pushInt x.nHeight <+: coinbaseScript x.tx ∧
    ∀ y ∈ txs, y.nHeight < x.nHeight

/-- The sequences of transactions that can be connected one after the other. -/
inductive Ledger (env : Env) : List Placed → Prop
  | nil : Ledger env []
  | append {txs : List Placed} {x : Placed} (hl : Ledger env txs) (hx : CanFollow env txs x) :
      Ledger env (txs ++ [x])

variable {x : Placed} {txs : List Placed}

theorem Ledger.of_append (h : Ledger env (txs ++ [x])) :
    Ledger env txs ∧ CanFollow env txs x := by
  generalize hall : txs ++ [x] = all at h
  cases h with
  | nil => simp at hall
  | append hl hx =>
    obtain ⟨rfl, hlast⟩ := List.append_inj' hall rfl
    obtain rfl := List.singleton_inj.mp hlast
    exact ⟨hl, hx⟩

theorem Ledger.of_append_list :
    ∀ {more : List Placed}, Ledger env (txs ++ more) → Ledger env txs := by
  intro more
  induction more using List.reverseRecOn with
  | nil => intro h; simpa using h
  | append_singleton more x ih =>
    intro h
    rw [← List.append_assoc] at h
    exact ih h.of_append.1

/-- The pointer of the output `o` is `p`. -/
def SpentAt (M : TxIndexMap) (o : COutPoint) (p : CDiskTxPos) : Prop :=
  ∃ txindex, M o.hash = some txindex ∧ txindex.vSpent[o.n]? = some p

theorem SpentAt.unique (hp : SpentAt M o p) (hq : SpentAt M o q) : p = q := by
  obtain ⟨txindex, hM, hn⟩ := hp
  obtain ⟨txindex', hM', hn'⟩ := hq
  obtain rfl := Option.some.inj (hM.symm.trans hM')
  exact Option.some.inj (hn.symm.trans hn')

/-- The pointers after connecting a transaction: those of its own outputs are null, those of the
outputs it spends are its position, the others are as before. -/
theorem spentAt_connectMap {tx : CTransaction} (hne : o.hash ≠ env.getHash tx) :
    SpentAt (connectMap env M tx p) o q ↔
      if tx.isCoinBase = false ∧ o ∈ tx.prevouts then q = p ∧ OutputExists M o
      else SpentAt M o q := by
  unfold SpentAt connectMap
  rw [update_of_ne hne]
  by_cases hcb : tx.isCoinBase = true
  · simp [hcb]
  · have hcb' : tx.isCoinBase = false := by simpa using hcb
    simp only [hcb', Bool.false_eq_true, if_false, true_and]
    cases hM : M o.hash with
    | none => simp [setSpentAll, hM, OutputExists]
    | some txindex =>
      obtain ⟨txindex', hM', -, hlen, hget⟩ := setSpentAll_getElem? hM tx.prevouts p o.n
      rw [hM']
      simp only [Option.some.injEq, exists_eq_left', hget]
      by_cases ho : o ∈ tx.prevouts
      · simp only [ho, if_true, Option.map_eq_some_iff, OutputExists, hM, Option.some.injEq,
          exists_eq_left']
        constructor
        · rintro ⟨q', hq', rfl⟩
          exact ⟨rfl, (List.getElem?_eq_some_iff.mp hq').1⟩
        · rintro ⟨rfl, hlt⟩
          exact ⟨_, List.getElem?_eq_getElem hlt, rfl⟩
      · simp [ho]

theorem not_spentAt_own {tx : CTransaction} (heq : o.hash = env.getHash tx)
    (hq : q ≠ .null) : ¬ SpentAt (connectMap env M tx p) o q := by
  rintro ⟨txindex, hM, hn⟩
  rw [connectMap, heq, update_self] at hM
  obtain rfl := Option.some.inj hM
  obtain ⟨hlt, hget⟩ := List.getElem?_eq_some_iff.mp hn
  simp [CTxIndex.mk'] at hget
  exact hq hget.symm

/-! ### What the index says -/

/-- The index of a sequence of transactions, in terms of the sequence. -/
structure LedgerSpec (env : Env) (txs : List Placed) : Prop where
  nodup : (txs.map fun x => env.getHash x.tx).Nodup
  none_iff : ∀ h, ledgerIndex env txs h = none ↔ ∀ x ∈ txs, h ≠ env.getHash x.tx
  entry : ∀ x ∈ txs, ∃ txindex, ledgerIndex env txs (env.getHash x.tx) = some txindex ∧
    txindex.pos = x.pos ∧ txindex.vSpent.length = x.tx.vout.length
  spent_iff : ∀ o p, p ≠ .null → (SpentAt (ledgerIndex env txs) o p ↔
    ∃ y ∈ txs, y.tx.isCoinBase = false ∧ o ∈ y.tx.prevouts ∧ y.pos = p)
  exclusive : ∀ y ∈ txs, ∀ y' ∈ txs, ∀ o, y.tx.isCoinBase = false → y'.tx.isCoinBase = false →
    o ∈ y.tx.prevouts → o ∈ y'.tx.prevouts → y = y'

theorem CanFollow.pos_ne_null (hx : CanFollow env txs x) :
    x.pos ≠ .null := by
  intro heq
  have h := hx.onDisk
  rw [heq] at h
  cases h

theorem Ledger.forall_canFollow (h : Ledger env txs) {y : Placed}
    (hy : y ∈ txs) : ∃ txs', CanFollow env txs' y := by
  induction h with
  | nil => cases hy
  | @append txs x _ hx ih =>
    rcases List.mem_append.mp hy with hy | hy
    · exact ih hy
    · rw [List.mem_singleton.mp hy]
      exact ⟨txs, hx⟩

/-- The outputs a transaction spends at its turn are not spent by an earlier one. -/
theorem not_mem_prevouts_of_unspent {y : Placed} (hspec : LedgerSpec env txs)
    (hl : Ledger env txs) (hy : y ∈ txs) (hcb : y.tx.isCoinBase = false)
    (ho : IsUnspent (ledgerIndex env txs) o) :
    o ∉ y.tx.prevouts := by
  intro hmem
  obtain ⟨_, hfollow⟩ := hl.forall_canFollow hy
  have hspent := (hspec.spent_iff o y.pos hfollow.pos_ne_null).mpr ⟨y, hy, hcb, hmem, rfl⟩
  exact hfollow.pos_ne_null (hspent.unique ho)

/-- **A new transaction has a new hash.**  A coinbase, because no other starts with its height; any
other transaction, because an earlier one with the same hash would have spent its inputs. -/
theorem CanFollow.hash_new (hx : CanFollow env txs x)
    (hl : Ledger env txs) (hspec : LedgerSpec env txs)
    (hcoll : CTransaction.NoCollision env.getHash T) (hxT : x.tx ∈ T)
    (hT : ∀ y ∈ txs, y.tx ∈ T) : ∀ y ∈ txs, env.getHash x.tx ≠ env.getHash y.tx := by
  intro y hy heq
  have hser := hcoll x.tx hxT y.tx (hT y hy) heq
  obtain ⟨hvin, -⟩ := CTransaction.serialized_inj hser
  obtain ⟨_, hy'⟩ := hl.forall_canFollow hy
  by_cases hcb : x.tx.isCoinBase = true
  · obtain ⟨hpx, hlt⟩ := hx.coinbase hcb
    obtain ⟨hpy, -⟩ := hy'.coinbase (by rw [← CTransaction.isCoinBase_congr hser]; exact hcb)
    rw [coinbaseScript, ← hvin] at hpy
    have := CScript.pushInt_prefix_inj hx.nHeight_lt hy'.nHeight_lt hpx hpy
    have := hlt y hy
    omega
  · have hcb' : x.tx.isCoinBase = false := by simpa using hcb
    obtain ⟨pool, hin⟩ := hx.inputsOk
    obtain ⟨txin, vin, htxin⟩ :=
      List.exists_cons_of_ne_nil (CTransaction.checkTransaction_ok hx.checked).1
    have hmem : txin.prevout ∈ x.tx.prevouts := by simp [CTransaction.prevouts, htxin]
    refine not_mem_prevouts_of_unspent hspec hl hy
      (by rw [← CTransaction.isCoinBase_congr hser]; exact hcb') ((hin hcb').1 _ hmem) ?_
    rw [CTransaction.prevouts, ← hvin]
    exact hmem

theorem LedgerSpec.hash_ne (hspec : LedgerSpec env txs)
    (hnew : ∀ y ∈ txs, env.getHash x.tx ≠ env.getHash y.tx) (ho : SpentAt (ledgerIndex env txs) o p) :
    o.hash ≠ env.getHash x.tx := by
  intro heq
  obtain ⟨txindex, hM, -⟩ := ho
  rw [heq, (hspec.none_iff _).mpr hnew] at hM
  cases hM

/-! ### One more transaction -/

/-- Spending changes neither the position nor the number of outputs of an entry. -/
theorem LedgerSpec.entry_append (hspec : LedgerSpec env txs)
    (hnew : ∀ y ∈ txs, env.getHash x.tx ≠ env.getHash y.tx) :
    ∀ y ∈ txs ++ [x], ∃ txindex, ledgerIndex env (txs ++ [x]) (env.getHash y.tx) = some txindex ∧
      txindex.pos = y.pos ∧ txindex.vSpent.length = y.tx.vout.length := by
  intro y hy
  rw [ledgerIndex_append]
  rcases List.mem_append.mp hy with hy | hy
  · obtain ⟨txindex, hM, hpos, hlen⟩ := hspec.entry y hy
    rw [connectMap, update_of_ne (hnew y hy).symm]
    split_ifs
    · exact ⟨txindex, hM, hpos, hlen⟩
    · obtain ⟨txindex', hM', hpos', hlen', -⟩ := setSpentAll_getElem? hM x.tx.prevouts x.pos 0
      exact ⟨txindex', hM', hpos'.trans hpos, hlen'.trans hlen⟩
  · rw [List.mem_singleton.mp hy]
    exact ⟨_, update_self _ _ _, rfl, by simp [CTxIndex.mk']⟩

/-- The spender of an output is the one recorded. -/
theorem LedgerSpec.spent_append (hspec : LedgerSpec env txs)
    (hl : Ledger env txs) (hx : CanFollow env txs x)
    (hnew : ∀ y ∈ txs, env.getHash x.tx ≠ env.getHash y.tx) (hp : p ≠ .null) :
    SpentAt (ledgerIndex env (txs ++ [x])) o p ↔
      ∃ y ∈ txs ++ [x], y.tx.isCoinBase = false ∧ o ∈ y.tx.prevouts ∧ y.pos = p := by
  obtain ⟨pool, hin⟩ := hx.inputsOk
  rw [ledgerIndex_append]
  by_cases hown : o.hash = env.getHash x.tx
  · -- outputs of the new transaction are not spent by anyone yet
    refine iff_of_false (not_spentAt_own hown hp) ?_
    rintro ⟨y, hy, hcb, hmem, rfl⟩
    rcases List.mem_append.mp hy with hy | hy
    · exact hspec.hash_ne hnew ((hspec.spent_iff o y.pos hp).mpr ⟨y, hy, hcb, hmem, rfl⟩) hown
    · rw [List.mem_singleton.mp hy] at hcb hmem
      exact hspec.hash_ne hnew ((hin hcb).1 o hmem) hown
  · rw [spentAt_connectMap hown]
    split_ifs with hx'
    · -- the new transaction spends `o`, so no earlier one does
      have hunspent := (hin hx'.1).1 o hx'.2
      constructor
      · rintro ⟨rfl, -⟩
        exact ⟨x, by simp, hx'.1, hx'.2, rfl⟩
      · rintro ⟨y, hy, hcb, hmem, rfl⟩
        rcases List.mem_append.mp hy with hy | hy
        · exact absurd hmem (not_mem_prevouts_of_unspent hspec hl hy hcb hunspent)
        · rw [List.mem_singleton.mp hy]
          exact ⟨rfl, hunspent.outputExists⟩
    · rw [hspec.spent_iff o p hp]
      constructor
      · rintro ⟨y, hy, hrest⟩
        exact ⟨y, by simp [hy], hrest⟩
      · rintro ⟨y, hy, hcb, hmem, hpos⟩
        rcases List.mem_append.mp hy with hy | hy
        · exact ⟨y, hy, hcb, hmem, hpos⟩
        · rw [List.mem_singleton.mp hy] at hcb hmem
          exact absurd ⟨hcb, hmem⟩ hx'

/-- No two transactions spend the same output: the new one spends unspent outputs only. -/
theorem LedgerSpec.exclusive_append (hspec : LedgerSpec env txs)
    (hl : Ledger env txs) (hx : CanFollow env txs x) :
    ∀ y ∈ txs ++ [x], ∀ y' ∈ txs ++ [x], ∀ o, y.tx.isCoinBase = false → y'.tx.isCoinBase = false →
      o ∈ y.tx.prevouts → o ∈ y'.tx.prevouts → y = y' := by
  obtain ⟨pool, hin⟩ := hx.inputsOk
  intro y hy y' hy' o hcb hcb' hmem hmem'
  rcases List.mem_append.mp hy with hy | hy <;> rcases List.mem_append.mp hy' with hy' | hy'
  · exact hspec.exclusive y hy y' hy' o hcb hcb' hmem hmem'
  · rw [List.mem_singleton.mp hy'] at hcb' hmem'
    exact absurd hmem (not_mem_prevouts_of_unspent hspec hl hy hcb ((hin hcb').1 o hmem'))
  · rw [List.mem_singleton.mp hy] at hcb hmem
    exact absurd hmem' (not_mem_prevouts_of_unspent hspec hl hy' hcb' ((hin hcb).1 o hmem))
  · rw [List.mem_singleton.mp hy, List.mem_singleton.mp hy']

theorem LedgerSpec.append {txs : List Placed} {x : Placed} (hspec : LedgerSpec env txs)
    (hl : Ledger env txs) (hx : CanFollow env txs x)
    (hnew : ∀ y ∈ txs, env.getHash x.tx ≠ env.getHash y.tx) : LedgerSpec env (txs ++ [x]) := by
  refine ⟨?_, fun h => ?_, hspec.entry_append hnew, fun o p hp => hspec.spent_append hl hx hnew hp,
    hspec.exclusive_append hl hx⟩
  · rw [List.map_append, List.map_singleton, List.nodup_append]
    refine ⟨hspec.nodup, by simp, ?_⟩
    rintro h hh h' hh' rfl
    obtain ⟨y, hy, rfl⟩ := List.mem_map.mp hh
    exact hnew y hy (List.mem_singleton.mp hh').symm
  · -- what is not a hash of the ledger is not indexed
    rw [ledgerIndex_append]
    by_cases hh : h = env.getHash x.tx
    · subst hh
      simp [connectMap]
    · rw [connectMap_eq_none hh, hspec.none_iff]
      simp [hh, or_imp, forall_and]

theorem Ledger.spec (hl : Ledger env txs)
    (hcoll : CTransaction.NoCollision env.getHash T) (hT : ∀ x ∈ txs, x.tx ∈ T) :
    LedgerSpec env txs := by
  induction hl with
  | nil => exact ⟨by simp, by simp [ledgerIndex], by simp, by simp [SpentAt, ledgerIndex], by simp⟩
  | @append txs x hl hx ih =>
    have hspec := ih fun y hy => hT y (by simp [hy])
    exact hspec.append hl hx (hx.hash_new hl hspec hcoll (hT x (by simp)) fun y hy =>
      hT y (by simp [hy]))

/-! ### The value of the unspent outputs -/

/-- The value of the outputs `vout` whose pointers are null. -/
def unspentOf (vout : List CTxOut) (vSpent : List CDiskTxPos) : CAmount :=
  (List.zipWith (fun txout p => if p = CDiskTxPos.null then txout.nValue else 0) vout vSpent).sum

/-- The total value of the outputs of the transactions whose pointers in the index are null. -/
def unspentValue (env : Env) (M : TxIndexMap) (txs : List Placed) : CAmount :=
  (txs.map fun x => unspentOf x.tx.vout ((M (env.getHash x.tx)).elim [] CTxIndex.vSpent)).sum

theorem unspentOf_replicate (vout : List CTxOut) :
    unspentOf vout (List.replicate vout.length .null) = (vout.map CTxOut.nValue).sum := by
  induction vout with
  | nil => rfl
  | cons txout vout ih =>
    rw [unspentOf] at ih ⊢
    rw [List.length_cons, List.replicate_succ, List.zipWith_cons_cons, List.sum_cons, ih,
      if_pos rfl, List.map_cons, List.sum_cons]

theorem unspentOf_set (hp : p ≠ .null) :
    ∀ (vout : List CTxOut) (vSpent : List CDiskTxPos) (n : Nat), vSpent[n]? = some .null →
      n < vout.length → unspentOf vout (vSpent.set n p)
        = unspentOf vout vSpent - (vout.getD n ⟨0, [], 0⟩).nValue := by
  intro vout
  induction vout with
  | nil => intro vSpent n _ hn; simp at hn
  | cons txout vout ih =>
    intro vSpent n hnull hn
    cases vSpent with
    | nil => simp at hnull
    | cons q vSpent =>
      cases n with
      | zero =>
        obtain rfl : q = .null := by simpa using hnull
        simp [unspentOf, hp]
      | succ n =>
        have hih := ih vSpent n (by simpa using hnull) (by simpa using hn)
        simp only [unspentOf, List.set_cons_succ, List.zipWith_cons_cons, List.sum_cons,
          List.getD_cons_succ] at hih ⊢
        rw [hih]
        ring

/-- Changing the summand of one element of a list without repeated keys. -/
theorem sum_map_change {α κ : Type} (key : α → κ) (f g : α → Int) {x : α} :
    ∀ {xs : List α}, (xs.map key).Nodup → x ∈ xs → (∀ y ∈ xs, key y ≠ key x → g y = f y) →
      (xs.map g).sum = (xs.map f).sum + (g x - f x) := by
  intro xs
  induction xs with
  | nil => intro _ hx; cases hx
  | cons y xs ih =>
    intro hnodup hx hsame
    rw [List.map_cons, List.nodup_cons] at hnodup
    rcases List.mem_cons.mp hx with rfl | hx
    · have hrest : xs.map g = xs.map f := List.map_congr_left fun z hz =>
        hsame z (by simp [hz]) fun heq => hnodup.1 (heq ▸ List.mem_map_of_mem hz)
      rw [List.map_cons, List.map_cons, List.sum_cons, List.sum_cons, hrest]
      ring
    · have hy : g y = f y := hsame y (by simp) fun heq =>
        hnodup.1 (heq ▸ List.mem_map_of_mem hx)
      rw [List.map_cons, List.map_cons, List.sum_cons, List.sum_cons, hy,
        ih hnodup.2 hx fun z hz => hsame z (by simp [hz])]
      ring

/-- The previous transaction of an unspent output is the transaction of the chain. -/
theorem Ledger.exists_placed (hl : Ledger env txs) (hspec : LedgerSpec env txs)
    (pool : CTxMemPool) (ho : SpentAt (ledgerIndex env txs) o p) :
    ∃ y ∈ txs, env.getHash y.tx = o.hash ∧ o.n < y.tx.vout.length ∧
      prevValue env pool (ledgerIndex env txs) o = (y.tx.vout.getD o.n ⟨0, [], 0⟩).nValue := by
  obtain ⟨txindex, hM, hn⟩ := ho
  obtain ⟨y, hy, heq⟩ : ∃ y ∈ txs, o.hash = env.getHash y.tx := by
    by_contra hnone
    push Not at hnone
    rw [(hspec.none_iff _).mpr hnone] at hM
    cases hM
  obtain ⟨txindex', hM', hpos, hlen⟩ := hspec.entry y hy
  rw [← heq] at hM'
  obtain rfl := Option.some.inj (hM.symm.trans hM')
  obtain ⟨_, hfollow⟩ := hl.forall_canFollow hy
  refine ⟨y, hy, heq.symm, by rw [← hlen]; exact (List.getElem?_eq_some_iff.mp hn).1, ?_⟩
  have hload : loadPrev env pool o.hash txindex = some y.tx := by
    rw [loadPrev, hpos, if_neg hfollow.pos_ne, hfollow.onDisk]
  rw [prevValue, hM, Option.bind_some, hload]

/-- Marking unspent outputs, each once, takes their values away. -/
theorem unspentValue_setSpentAll (hl : Ledger env txs) (hspec : LedgerSpec env txs)
    (pool : CTxMemPool) (hp : p ≠ .null) {os : List COutPoint} :
    os.Nodup → (∀ o ∈ os, IsUnspent (ledgerIndex env txs) o) →
      unspentValue env (setSpentAll os p (ledgerIndex env txs)) txs
        = unspentValue env (ledgerIndex env txs) txs
          - (os.map (prevValue env pool (ledgerIndex env txs))).sum := by
  induction os using List.reverseRecOn with
  | nil => intro _ _; rw [setSpentAll_nil]; simp
  | append_singleton os o ih =>
    intro hnodup hunspent
    rw [List.nodup_append] at hnodup
    obtain ⟨hnodup', -, hdisj⟩ := hnodup
    have ho : o ∉ os := fun hmem => hdisj o hmem o (by simp) rfl
    obtain ⟨y, hy, hhash, hlt, hvalue⟩ := hl.exists_placed hspec pool (hunspent o (by simp))
    obtain ⟨txindex, hM, hnull⟩ := hunspent o (by simp)
    obtain ⟨txindex', hM', -, -, hget⟩ := setSpentAll_getElem? hM os p o.n
    have hnull' : txindex'.vSpent[o.n]? = some .null := by rw [hget, hnull]; simp [ho]
    have hih := ih hnodup' fun o' ho' => hunspent o' (by simp [ho'])
    rw [setSpentAll_append, hM', Option.map_some, List.map_append, List.sum_append, List.map_singleton,
      List.sum_singleton]
    -- only the entry of the previous transaction changes
    have hchange := sum_map_change (fun x : Placed => env.getHash x.tx)
      (fun x => unspentOf x.tx.vout
        ((setSpentAll os p (ledgerIndex env txs) (env.getHash x.tx)).elim [] CTxIndex.vSpent))
      (fun x => unspentOf x.tx.vout
        ((update (setSpentAll os p (ledgerIndex env txs)) o.hash
          (some (txindex'.setSpent o.n p)) (env.getHash x.tx)).elim [] CTxIndex.vSpent))
      hspec.nodup hy (by
        intro z _ hne
        rw [update_of_ne (by rw [← hhash]; exact hne)])
    have hset := unspentOf_set hp _ _ _ hnull' hlt
    simp only [hhash, update_self, hM', Option.elim_some, CTxIndex.setSpent] at hchange
    rw [hset] at hchange
    simp only [unspentValue] at hih ⊢
    rw [CTxIndex.setSpent, hchange, hih, hvalue]
    ring

/-- **The value of the unspent outputs after one more transaction.** -/
theorem LedgerSpec.unspentValue_append
    (hspec : LedgerSpec env txs) (hl : Ledger env txs) (hx : CanFollow env txs x)
    (hnew : ∀ y ∈ txs, env.getHash x.tx ≠ env.getHash y.tx) (pool : CTxMemPool) :
    unspentValue env (ledgerIndex env (txs ++ [x])) (txs ++ [x])
      = unspentValue env (ledgerIndex env txs) txs
        + (x.tx.valueOut - valueIn env pool (ledgerIndex env txs) x.tx) := by
  obtain ⟨pool', hin⟩ := hx.inputsOk
  have hold : ∀ M v, (txs.map fun y => unspentOf y.tx.vout
      ((update M (env.getHash x.tx) v (env.getHash y.tx)).elim [] CTxIndex.vSpent)).sum
        = unspentValue env M txs := by
    intro M v
    rw [unspentValue]
    congr 1
    refine List.map_congr_left fun y hy => ?_
    rw [update_of_ne (hnew y hy).symm]
  have hown : unspentOf x.tx.vout (CTxIndex.mk' x.pos x.tx.vout.length).vSpent = x.tx.valueOut :=
    unspentOf_replicate x.tx.vout
  rw [ledgerIndex_append, unspentValue, List.map_append, List.sum_append, List.map_singleton,
    List.sum_singleton, connectMap, hold, update_self, Option.elim_some, hown, valueIn]
  by_cases hcb : x.tx.isCoinBase = true
  · simp [hcb]
  · have hcb' : x.tx.isCoinBase = false := by simpa using hcb
    rw [if_neg hcb, if_neg hcb, unspentValue_setSpentAll hl hspec pool hx.pos_ne_null
      (CTransaction.checkTransaction_ok hx.checked).2.2.1 (hin hcb').1]
    ring

end Sphinx
