import Sphinx.Equiv.PoolChain
import Sphinx.OrphanTx

/-!
# The orphan transactions and their index

`mapOrphanTransactionsByPrev` should have the hashes of the orphans by the transactions they refer to
(`OrphansIndexed`).  The loops of the message `tx` are followed through as well:

* `limitOrphanTxSize_total`: as many orphans are evicted as are too many;
* `acceptToMemoryPool_indexed`: every input of an accepted transaction is in the database, and the
  transaction itself is not;
* `processTx_accepted`: so an orphan of an accepted transaction is never accepted with it, and the work
  queue ends after its first element.
-/

namespace Sphinx

open TwoWayIndex

variable {env : Env} {s s' : TxNode} {a : TxMessage} {tx : CTransaction}
variable {hash : Uint256}

/-- The database has an entry under the hash of a transaction. -/
abbrev Node.containsTx (node : Node) (hash : Uint256) : Bool :=
  (⟨node.txdb.pdb, none⟩ : CTxDB).containsTx hash

/-- The orphans are kept under their hashes, and the index agrees with them. -/
structure OrphansIndexed (env : Env) (s : TxNode) : Prop where
  key : ∀ hash tx, s.mapOrphanTransactions.lookup hash = some tx → env.getHash tx = hash
  agrees : Agrees CTransaction.prevHashes s.mapOrphanTransactions s.mapOrphanTransactionsByPrev

theorem mem_prevHashes {p : Uint256} : p ∈ tx.prevHashes ↔ ∃ txin ∈ tx.vin, txin.prevout.hash = p := by
  simp [CTransaction.prevHashes, CTransaction.prevouts]

/-! ### The operations on the orphans -/

theorem OrphansIndexed.addOrphanTx (h : OrphansIndexed env s) (tx : CTransaction) :
    OrphansIndexed env (addOrphanTx env s tx).2 := by
  simp only [Sphinx.addOrphanTx]
  split_ifs with hheld
  · exact h
  · exact h
  · have hnone : s.mapOrphanTransactions.lookup (env.getHash tx) = none :=
      Option.not_isSome_iff_eq_none.mp hheld
    refine ⟨fun hash tx' hlookup => ?_, h.agrees.insert hnone tx⟩
    by_cases heq : hash = env.getHash tx
    · subst heq
      rw [AList.lookup_insert] at hlookup
      rw [← Option.some.inj hlookup]
    · rw [AList.lookup_insert_ne heq] at hlookup
      exact h.key hash tx' hlookup

theorem nOrphans_addOrphanTx (env : Env) (s : TxNode) (tx : CTransaction) :
    (addOrphanTx env s tx).2.nOrphans ≤ s.nOrphans + 1 := by
  simp only [addOrphanTx]
  split_ifs
  · exact Nat.le_succ _
  · exact Nat.le_succ _
  · have herase := (List.kerase_sublist (env.getHash tx) s.mapOrphanTransactions.entries).length_le
    simp only [TxNode.nOrphans, AList.entries_insert, List.length_cons]
    omega

theorem lookup_eraseOrphanTx (s : TxNode) (hash h : Uint256) :
    (eraseOrphanTx s hash).mapOrphanTransactions.lookup h =
      if h = hash then none else s.mapOrphanTransactions.lookup h := by
  unfold eraseOrphanTx
  cases hlookup : s.mapOrphanTransactions.lookup hash with
  | none =>
    split_ifs with heq
    · rw [heq, hlookup]
    · rfl
  | some tx =>
    split_ifs with heq
    · rw [heq, AList.lookup_erase]
    · exact AList.lookup_erase_ne heq

@[simp] theorem node_eraseOrphanTx (s : TxNode) (hash : Uint256) :
    (eraseOrphanTx s hash).node = s.node := by
  unfold eraseOrphanTx
  split <;> rfl

theorem OrphansIndexed.eraseOrphanTx (h : OrphansIndexed env s) (hash : Uint256) :
    OrphansIndexed env (eraseOrphanTx s hash) := by
  refine ⟨fun hash' tx hlookup => ?_, ?_⟩
  · rw [lookup_eraseOrphanTx] at hlookup
    split_ifs at hlookup
    exact h.key hash' tx hlookup
  · unfold Sphinx.eraseOrphanTx
    cases hlookup : s.mapOrphanTransactions.lookup hash with
    | none => exact h.agrees
    | some tx => exact h.agrees.erase hlookup

theorem nOrphans_eraseOrphanTx (hheld : hash ∈ s.mapOrphanTransactions) :
    (eraseOrphanTx s hash).nOrphans + 1 = s.nOrphans := by
  obtain ⟨tx, hlookup⟩ := Option.isSome_iff_exists.mp (AList.lookup_isSome.mpr hheld)
  obtain ⟨tx', l, l', -, hentries, hkerase⟩ := List.exists_of_kerase (AList.mem_keys.mpr hheld)
  simp only [eraseOrphanTx, hlookup, TxNode.nOrphans]
  change (s.mapOrphanTransactions.entries.kerase hash).length + 1 = s.mapOrphanTransactions.entries.length
  rw [hkerase, hentries, List.length_append, List.length_append, List.length_cons, Nat.add_assoc]

theorem OrphansIndexed.eraseAll (hashes : List Uint256) :
    ∀ {s : TxNode}, OrphansIndexed env s → OrphansIndexed env (hashes.foldl Sphinx.eraseOrphanTx s) := by
  induction hashes with
  | nil => exact fun h => h
  | cons hash hashes ih => exact fun h => ih (h.eraseOrphanTx hash)

theorem node_eraseAll (hashes : List Uint256) :
    ∀ s : TxNode, (hashes.foldl eraseOrphanTx s).node = s.node := by
  induction hashes with
  | nil => exact fun s => rfl
  | cons hash hashes ih =>
    intro s
    rw [List.foldl_cons, ih, node_eraseOrphanTx]

theorem nOrphans_eraseAll (hashes : List Uint256) :
    ∀ s : TxNode, (hashes.foldl eraseOrphanTx s).nOrphans ≤ s.nOrphans := by
  induction hashes with
  | nil => exact fun s => le_rfl
  | cons hash hashes ih =>
    intro s
    refine (ih _).trans ?_
    unfold eraseOrphanTx
    cases hlookup : s.mapOrphanTransactions.lookup hash with
    | none => exact le_rfl
    | some tx => exact (List.kerase_sublist hash s.mapOrphanTransactions.entries).length_le

theorem lookup_eraseAll (hashes : List Uint256) : ∀ (s : TxNode) {h : Uint256} {tx : CTransaction},
    (hashes.foldl eraseOrphanTx s).mapOrphanTransactions.lookup h = some tx →
      s.mapOrphanTransactions.lookup h = some tx := by
  induction hashes with
  | nil => exact fun s h tx hlookup => hlookup
  | cons hash hashes ih =>
    intro s h tx hlookup
    have hone := ih (eraseOrphanTx s hash) hlookup
    rw [lookup_eraseOrphanTx] at hone
    split_ifs at hone
    exact hone

/-! ### Evicting orphans -/

theorem lowerBoundOrFirst_mem {keys : List Uint256} (hne : keys ≠ []) (key : Uint256) :
    ∃ hash ∈ keys, lowerBoundOrFirst keys key = some hash := by
  unfold lowerBoundOrFirst
  cases hbound : (keys.filter fun k => key ≤ k).min? with
  | some hash =>
    exact ⟨hash, (List.mem_filter.mp (List.min?_mem hbound)).1, rfl⟩
  | none =>
    cases hfirst : keys.min? with
    | some hash => exact ⟨hash, List.min?_mem hfirst, rfl⟩
    | none => exact absurd (List.min?_eq_none_iff.mp hfirst) hne

/-- **Eviction ends**, and evicts no more than it has to. -/
theorem limitOrphanTxSize_total (nMaxOrphans : Nat) (randHash : Nat → Uint256) :
    ∀ (n : Nat) (s : TxNode) (nEvicted : Nat), s.nOrphans = n → OrphansIndexed env s →
      ∃ s' k, (∀ fuel, n < fuel →
          limitOrphanTxSize nMaxOrphans randHash fuel nEvicted s = some (s', nEvicted + k)) ∧
        OrphansIndexed env s' ∧ s'.nOrphans ≤ nMaxOrphans ∧ s'.nOrphans + k = s.nOrphans ∧
        s'.node = s.node ∧ (∀ h tx, s'.mapOrphanTransactions.lookup h = some tx →
          s.mapOrphanTransactions.lookup h = some tx) := by
  intro n
  induction n with
  | zero =>
    intro s nEvicted hn h
    refine ⟨s, 0, fun fuel hfuel => ?_, h, by omega, rfl, rfl, fun _ _ hl => hl⟩
    obtain ⟨f, rfl⟩ : ∃ f, fuel = f + 1 := ⟨fuel - 1, by omega⟩
    have hle : s.nOrphans ≤ nMaxOrphans := by omega
    rw [limitOrphanTxSize, if_pos hle]
    rfl
  | succ n ih =>
    intro s nEvicted hn h
    by_cases hle : s.nOrphans ≤ nMaxOrphans
    · refine ⟨s, 0, fun fuel hfuel => ?_, h, hle, rfl, rfl, fun _ _ hl => hl⟩
      obtain ⟨f, rfl⟩ : ∃ f, fuel = f + 1 := ⟨fuel - 1, by omega⟩
      rw [limitOrphanTxSize, if_pos hle]
      rfl
    · have hne : s.mapOrphanTransactions.keys ≠ [] := by
        intro hnil
        have hlength : s.mapOrphanTransactions.entries.length = 0 := by
          simpa [AList.keys, List.keys] using hnil
        rw [TxNode.nOrphans] at hn
        omega
      obtain ⟨hash, hmem, hbound⟩ := lowerBoundOrFirst_mem hne (randHash nEvicted)
      have hsize := nOrphans_eraseOrphanTx (AList.mem_keys.mp hmem)
      obtain ⟨s', k, hrun, h', hmax, hcount, hnode, hsub⟩ :=
        ih (eraseOrphanTx s hash) (nEvicted + 1) (by omega) (h.eraseOrphanTx hash)
      refine ⟨s', k + 1, fun fuel hfuel => ?_, h', hmax, by omega,
        hnode.trans (node_eraseOrphanTx s hash), fun h tx hl => ?_⟩
      · obtain ⟨f, rfl⟩ : ∃ f, fuel = f + 1 := ⟨fuel - 1, by omega⟩
        rw [limitOrphanTxSize, if_neg hle, hbound]
        have hrest := hrun f (by omega)
        rw [show nEvicted + (k + 1) = nEvicted + 1 + k by omega]
        exact hrest
      · exact lookup_eraseAll [hash] s (hsub h tx hl)

/-! ### Accepting a transaction -/

theorem acceptToMemoryPool_indexed {c : Ctx} {node node' : Node}
    (h : acceptToMemoryPool env c node tx = .ok node') :
    node.containsTx (env.getHash tx) = false ∧ ∀ o ∈ tx.prevouts, node.containsTx o.hash = true := by
  unfold acceptToMemoryPool at h
  split at h
  · cases h
  · simp only [exceptBind_ok, rejectIf_eq_ok, acceptInputs] at h
    obtain ⟨-, -, -, -, -, -, -, -, -, -, -, -, -, ⟨-, hfresh, -, hall, -⟩, -⟩ := h
    refine ⟨hfresh, fun o ho => ?_⟩
    rw [Bool.not_eq_false'] at hall
    exact List.all_eq_true.mp hall o ho

/-- The orphan waits for a transaction that the database does not have. -/
def Waits (s : TxNode) (hash : Uint256) : Prop :=
  ∃ tx, s.mapOrphanTransactions.lookup hash = some tx ∧
    ∃ o ∈ tx.prevouts, s.node.containsTx o.hash = false

/-- `fMissingInputs2` is not set for the orphan. -/
def orphanDropped (env : Env) (a : TxMessage) (s : TxNode) (hash : Uint256) : Bool :=
  !acceptMissingInputs env (a.orphanCtx hash) s.node
    ((s.mapOrphanTransactions.lookup hash).getD a.emptyTx)

theorem processOrphanTx_waits {w : TxWork} (hwaits : Waits w.state hash) :
    processOrphanTx env a w hash = { w with
      vEraseQueue := w.vEraseQueue ++ [hash].filter (orphanDropped env a w.state) } := by
  obtain ⟨tx, hlookup, o, ho, hmissing⟩ := hwaits
  have hnew : MapLoop.insertNew tx w.state.mapOrphanTransactions hash = w.state.mapOrphanTransactions := by
    simp [MapLoop.insertNew, hlookup]
  have herror : ∀ node', acceptToMemoryPool env (a.orphanCtx hash) w.state.node tx ≠ .ok node' := by
    intro node' hok
    have hfound := (acceptToMemoryPool_indexed hok).2 o ho
    rw [hmissing] at hfound
    cases hfound
  simp only [processOrphanTx, hlookup, Option.getD_some, hnew]
  cases haccept : acceptToMemoryPool env (a.orphanCtx hash) w.state.node tx with
  | ok node' => exact absurd haccept (herror node')
  | error e =>
    simp only [List.filter_cons, List.filter_nil, orphanDropped, hlookup, Option.getD_some]
    cases acceptMissingInputs env (a.orphanCtx hash) w.state.node tx <;> simp

theorem processOrphanTx_foldl (env : Env) (a : TxMessage) (hashes : List Uint256) :
    ∀ {w : TxWork}, (∀ hash ∈ hashes, Waits w.state hash) →
      hashes.foldl (processOrphanTx env a) w = { w with
        vEraseQueue := w.vEraseQueue ++ hashes.filter (orphanDropped env a w.state) } := by
  induction hashes with
  | nil => intro w _; simp
  | cons hash hashes ih =>
    intro w hwaits
    rw [List.forall_mem_cons] at hwaits
    have hrest := ih (w := { w with
      vEraseQueue := w.vEraseQueue ++ [hash].filter (orphanDropped env a w.state) }) hwaits.2
    rw [List.foldl_cons, processOrphanTx_waits hwaits.1, hrest, List.append_assoc,
      ← List.filter_append]
    rfl

theorem OrphansIndexed.waits (h : OrphansIndexed env s) {p : Uint256}
    (hmissing : s.node.containsTx p = false) (hmem : hash ∈ keysOf s.mapOrphanTransactionsByPrev p) :
    Waits s hash := by
  obtain ⟨tx, hlookup, hp⟩ := (h.agrees.mem_iff p hash).mp hmem
  obtain ⟨o, ho, rfl⟩ := List.mem_map.mp hp
  exact ⟨tx, hlookup, o, ho, hmissing⟩

/-- The orphans that are dropped with an accepted transaction. -/
def droppedOrphans (env : Env) (a : TxMessage) (s : TxNode) : List Uint256 :=
  (keysOf s.mapOrphanTransactionsByPrev (env.getHash a.tx)).filter (orphanDropped env a s)

/-- **An accepted transaction.**  It goes into the pool, and no orphan does. -/
theorem processTx_accepted {node' : Node} (h : OrphansIndexed env s) (hproceeds : proceeds env a s = true)
    (hok : acceptToMemoryPool env a.ctx s.node a.tx = .ok node') (fuel : Nat) :
    processTx env (fuel + 2) a s =
      some ((droppedOrphans env a { s with node := node' }).foldl eraseOrphanTx { s with node := node' }) := by
  have hdb : node'.txdb = s.node.txdb := by rw [(acceptToMemoryPool_ok hok).node_eq]
  have hmissing : node'.containsTx (env.getHash a.tx) = false := by
    rw [Node.containsTx, hdb]
    exact (acceptToMemoryPool_indexed hok).1
  have h' : OrphansIndexed env { s with node := node' } := ⟨h.key, h.agrees⟩
  have hloop := @processOrphanTx_foldl env a _
    ⟨{ s with node := node' }, [], []⟩ fun hash hmem => h'.waits hmissing hmem
  simp only [processTx, hproceeds, Bool.not_true, Bool.false_eq_true, if_false, hok, processOrphanTxs]
  rw [keysOf] at hloop
  rw [hloop]
  rfl

/-- A message that is dropped, or a transaction that is neither accepted nor missing an input, changes
nothing. -/
theorem processTx_dropped (fuel : Nat) (hdropped : proceeds env a s = true →
    (∀ node', acceptToMemoryPool env a.ctx s.node a.tx ≠ .ok node') ∧
      acceptMissingInputs env a.ctx s.node a.tx = false) :
    processTx env fuel a s = some s := by
  unfold processTx
  cases hproceeds : proceeds env a s with
  | false => rfl
  | true =>
    obtain ⟨herror, hmissing⟩ := hdropped hproceeds
    cases haccept : acceptToMemoryPool env a.ctx s.node a.tx with
    | ok node' => exact absurd haccept (herror node')
    | error e => simp [hmissing]

/-- A transaction with a missing input becomes an orphan, and then as many are evicted as are too
many. -/
theorem processTx_missing (h : OrphansIndexed env s) (hproceeds : proceeds env a s = true)
    (herror : ∀ node', acceptToMemoryPool env a.ctx s.node a.tx ≠ .ok node')
    (hmissing : acceptMissingInputs env a.ctx s.node a.tx = true) :
    ∃ s', (∀ fuel, s.nOrphans + 2 ≤ fuel → processTx env fuel a s = some s') ∧
      OrphansIndexed env s' ∧ s'.node = s.node ∧ s'.nOrphans ≤ s.nOrphans + 1 := by
  obtain ⟨s', k, hrun, h', -, hcount, hnode, -⟩ := limitOrphanTxSize_total maxOrphanTransactions
    a.randHash _ (addOrphanTx env s a.tx).2 0 rfl (h.addOrphanTx a.tx)
  have hsize := nOrphans_addOrphanTx env s a.tx
  refine ⟨s', fun fuel hfuel => ?_, h', hnode.trans ?_, by omega⟩
  · unfold processTx
    rw [hproceeds]
    cases haccept : acceptToMemoryPool env a.ctx s.node a.tx with
    | ok node' => exact absurd haccept (herror node')
    | error e =>
      simp only [Bool.not_true, Bool.false_eq_true, if_false, hmissing, if_true]
      rw [hrun fuel (by omega)]
      rfl
  · simp only [addOrphanTx]
    split_ifs <;> rfl

/-- The state after a message. -/
def handleTx (env : Env) (s : TxNode) (a : TxMessage) : TxNode :=
  (processTx env (s.nOrphans + 2) a s).getD s

/-- **A message is handled to its end**, and the index stays right. -/
theorem processTx_total (h : OrphansIndexed env s) (a : TxMessage) :
    (∀ fuel, s.nOrphans + 2 ≤ fuel → processTx env fuel a s = some (handleTx env s a)) ∧
      OrphansIndexed env (handleTx env s a) ∧ (handleTx env s a).nOrphans ≤ s.nOrphans + 1 ∧
      ((handleTx env s a).node = s.node ∨
        acceptToMemoryPool env a.ctx s.node a.tx = .ok (handleTx env s a).node) := by
  suffices htotal : ∃ s', (∀ fuel, s.nOrphans + 2 ≤ fuel → processTx env fuel a s = some s') ∧
      OrphansIndexed env s' ∧ s'.nOrphans ≤ s.nOrphans + 1 ∧
      (s'.node = s.node ∨ acceptToMemoryPool env a.ctx s.node a.tx = .ok s'.node) by
    obtain ⟨s', hrun, hrest⟩ := htotal
    have heq : handleTx env s a = s' := by rw [handleTx, hrun _ le_rfl, Option.getD_some]
    rw [heq]
    exact ⟨hrun, hrest⟩
  by_cases hproceeds : proceeds env a s = true
  · cases haccept : acceptToMemoryPool env a.ctx s.node a.tx with
    | ok node' =>
      have h' : OrphansIndexed env { s with node := node' } := ⟨h.key, h.agrees⟩
      refine ⟨_, fun fuel hfuel => ?_, h'.eraseAll (droppedOrphans env a { s with node := node' }), ?_, ?_⟩
      · obtain ⟨f, rfl⟩ : ∃ f, fuel = f + 2 := ⟨fuel - 2, by omega⟩
        exact processTx_accepted h hproceeds haccept f
      · exact (nOrphans_eraseAll _ _).trans (Nat.le_succ _)
      · rw [node_eraseAll]
        exact .inr rfl
    | error e =>
      have herror : ∀ node', acceptToMemoryPool env a.ctx s.node a.tx ≠ .ok node' := by
        intro node' hok
        rw [haccept] at hok
        cases hok
      cases hmissing : acceptMissingInputs env a.ctx s.node a.tx with
      | true =>
        obtain ⟨s', hrun, h', hnode, hsize⟩ := processTx_missing h hproceeds herror hmissing
        exact ⟨s', hrun, h', hsize, .inl hnode⟩
      | false =>
        exact ⟨s, fun fuel _ => processTx_dropped fuel fun _ => ⟨herror, hmissing⟩, h, Nat.le_succ _,
          .inl rfl⟩
  · exact ⟨s, fun fuel _ => processTx_dropped fuel fun hp => absurd hp hproceeds, h, Nat.le_succ _,
      .inl rfl⟩

/-! ### Runs -/

/-- An operation on the orphans, a message, or a change of the rest of the node. -/
inductive TxEvent where
  | addOrphanTx (tx : CTransaction)
  | eraseOrphanTx (hash : Uint256)
  | limitOrphanTxSize (nMaxOrphans : Nat) (randHash : Nat → Uint256)
  | message (a : TxMessage)
  | node (node : Node)

/-- The event leads from `s` to `s'`, where a loop has fuel enough. -/
def TxStep (env : Env) (s : TxNode) : TxEvent → TxNode → Prop
  | .addOrphanTx tx, s' => s' = (addOrphanTx env s tx).2
  | .eraseOrphanTx hash, s' => s' = eraseOrphanTx s hash
  | .limitOrphanTxSize nMaxOrphans randHash, s' =>
    ∃ fuel₀ nEvicted, ∀ fuel, fuel₀ ≤ fuel →
      limitOrphanTxSize nMaxOrphans randHash fuel 0 s = some (s', nEvicted)
  | .message a, s' => ∃ fuel₀, ∀ fuel, fuel₀ ≤ fuel → processTx env fuel a s = some s'
  | .node node, s' => s' = { s with node := node }

/-- The states that come up from a node without orphans. -/
inductive TxReached (env : Env) : TxNode → Prop where
  | start (node : Node) : TxReached env ⟨node, ∅, ∅⟩
  | step {s s' : TxNode} {e : TxEvent} (h : TxReached env s) (hstep : TxStep env s e s') :
    TxReached env s'

theorem TxStep.indexed {e : TxEvent} (h : OrphansIndexed env s) (hstep : TxStep env s e s') :
    OrphansIndexed env s' := by
  cases e with
  | addOrphanTx tx => exact hstep ▸ h.addOrphanTx tx
  | eraseOrphanTx hash => exact hstep ▸ h.eraseOrphanTx hash
  | limitOrphanTxSize nMaxOrphans randHash =>
    obtain ⟨fuel₀, nEvicted, hstep⟩ := hstep
    obtain ⟨s1, k, hrun, h1, -⟩ := limitOrphanTxSize_total nMaxOrphans randHash _ s 0 rfl h
    have heq := (hstep (max fuel₀ (s.nOrphans + 1)) (by omega)).symm.trans (hrun _ (by omega))
    rw [Option.some.injEq, Prod.mk.injEq] at heq
    exact heq.1 ▸ h1
  | message a =>
    obtain ⟨fuel₀, hstep⟩ := hstep
    obtain ⟨hrun, h1, -⟩ := processTx_total h a
    have heq := (hstep (max fuel₀ (s.nOrphans + 2)) (by omega)).symm.trans (hrun _ (by omega))
    exact Option.some.inj heq ▸ h1
  | node node => exact hstep ▸ ⟨h.key, h.agrees⟩

theorem TxReached.indexed (h : TxReached env s) : OrphansIndexed env s := by
  induction h with
  | start node =>
    refine ⟨fun hash tx hlookup => ?_, agrees_empty _⟩
    cases hlookup
  | step _ hstep ih => exact hstep.indexed ih

/-- **The orphans and their index.**  In every state that comes up, the index has exactly the non-empty
sets of the hashes of the orphans that refer to a transaction, eviction ends with at most as many
orphans as it should and tells how many it has evicted, and every message is handled to its end. -/
theorem orphanTransactions_indexed (h : TxReached env s) :
    (∀ hash tx, s.mapOrphanTransactions.lookup hash = some tx → env.getHash tx = hash) ∧
    (∀ p hashes, s.mapOrphanTransactionsByPrev.lookup p = some hashes ↔
      hashes ≠ [] ∧ hashes.SortedLT ∧ ∀ hash, hash ∈ hashes ↔
        ∃ tx, s.mapOrphanTransactions.lookup hash = some tx ∧ ∃ txin ∈ tx.vin, txin.prevout.hash = p) ∧
    (∀ nMaxOrphans randHash, ∃ s' nEvicted,
      (∀ fuel, s.nOrphans < fuel →
        limitOrphanTxSize nMaxOrphans randHash fuel 0 s = some (s', nEvicted)) ∧
      s'.nOrphans ≤ nMaxOrphans ∧ s'.nOrphans + nEvicted = s.nOrphans ∧
      ∀ hash tx, s'.mapOrphanTransactions.lookup hash = some tx →
        s.mapOrphanTransactions.lookup hash = some tx) ∧
    ∀ a, ∃ s', ∀ fuel, s.nOrphans + 2 ≤ fuel → processTx env fuel a s = some s' := by
  have hind := h.indexed
  refine ⟨hind.key, fun p hashes => ?_, fun nMaxOrphans randHash => ?_, fun a => ?_⟩
  · simp only [hind.agrees.lookup_iff, mem_prevHashes]
  · obtain ⟨s', k, hrun, -, hmax, hcount, -, hsub⟩ :=
      limitOrphanTxSize_total nMaxOrphans randHash _ s 0 rfl hind
    exact ⟨s', k, fun fuel hfuel => by rw [hrun fuel hfuel, Nat.zero_add], hmax, hcount, hsub⟩
  · exact ⟨_, (processTx_total hind a).1⟩

def orphanNode : TxNode := (addOrphanTx (sampleEnv []) ⟨sampleNode [], ∅, ∅⟩ ordinaryTx).2

def orphanPair : TxNode := (addOrphanTx (sampleEnv []) orphanNode { ordinaryTx with nTime := 12 }).2

/-- Two orphans of one parent, of which one is evicted. -/
theorem orphanTransactions_indexed_pair :
    orphanPair.mapOrphanTransactionsByPrev.lookup 1001 = some [1011, 1012] ∧
    ∃ s', limitOrphanTxSize 1 (fun _ => 0) 3 0 orphanPair = some (s', 1) ∧ s'.nOrphans = 1 := by
  have hreached : TxReached (sampleEnv []) orphanPair :=
    .step (e := .addOrphanTx { ordinaryTx with nTime := 12 })
      (.step (e := .addOrphanTx ordinaryTx) (.start (sampleNode [])) rfl) rfl
  have hcount : orphanPair.nOrphans = 2 := by decide
  obtain ⟨-, -, hlimit, -⟩ := orphanTransactions_indexed hreached
  obtain ⟨s', k, hrun, hmax, hsum, -⟩ := hlimit 1 fun _ => 0
  have hsome := hrun 3 (by omega)
  have hevicted : (limitOrphanTxSize 1 (fun _ => 0) 3 0 orphanPair).map Prod.snd = some 1 := by decide
  rw [hsome, Option.map_some, Option.some.injEq] at hevicted
  obtain rfl : k = 1 := hevicted
  exact ⟨by decide, s', hsome, by omega⟩

end Sphinx
