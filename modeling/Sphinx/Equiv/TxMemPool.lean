import Sphinx.TxMemPool
import Sphinx.Util.Loop
import Sphinx.Util.Reach

/-!
# The memory pool index

`mapNextTx` is the inverse of the inputs of the transactions in `mapTx` (`PoolInv`).  Under this
invariant `remove` and `removeConflicts` are removals of sets: `Without pool R pool'` says that
`pool'` is `pool` without the transactions `R`.

* `removeRec_spec`: a recursive `remove` ends, and removes what descends from its argument;
* `removeConflicts_spec`: `removeConflicts` ends, and removes what descends from a transaction that
  spends a common outpoint;
* `poolRun_spec`: all of this after any sequence of operations on the pool;
* `removesOthers_iff`: what `removeConflicts` spares is what `operator==` finds equal to its argument, which
  is more than having its hash: it also compares `nRounds`.

The transactions that occur are those of a set `T`.  Two things are assumed about their hashes
(`HashOk`): transactions with equal hashes are equal as far as they are serialized, and no
transaction refers to itself through a chain of hashes.
-/

namespace Sphinx

namespace CTxMemPool

open Relation

variable {getHash : CTransaction → Uint256} {T : Set CTransaction} {pool pool' : CTxMemPool}
variable {h a : Uint256} {tx tx' txa : CTransaction} {o : COutPoint} {R : Set Uint256}

/-- The transaction with hash `b` names an output of a transaction with hash `a`. -/
def RefersTo (getHash : CTransaction → Uint256) (T : Set CTransaction) (a b : Uint256) : Prop :=
  ∃ tx ∈ T, getHash tx = b ∧ ∃ o ∈ tx.prevouts, o.hash = a

/-- What is assumed of the hashes of the transactions that occur. -/
structure HashOk (getHash : CTransaction → Uint256) (T : Set CTransaction) : Prop where
  noCollision : CTransaction.NoCollision getHash T
  acyclic : ∀ h, ¬ TransGen (RefersTo getHash T) h h

/-- The two maps of the pool agree: `mapTx` is keyed by hash, and `mapNextTx` holds exactly the
inputs of its transactions. -/
structure PoolInv (getHash : CTransaction → Uint256) (T : Set CTransaction)
    (pool : CTxMemPool) : Prop where
  mem : ∀ {h tx}, pool.mapTx.lookup h = some tx → tx ∈ T ∧ getHash tx = h
  mapNextTx_iff : ∀ o it, pool.mapNextTx.lookup o = some it ↔
    ∃ tx, pool.mapTx.lookup it.ptx = some tx ∧ tx.prevouts[it.n]? = some o

/-- The pool transaction `b` spends an output of the pool transaction `a`. -/
def Spends (pool : CTxMemPool) (a b : Uint256) : Prop :=
  ∃ txa txb, pool.mapTx.lookup a = some txa ∧ pool.mapTx.lookup b = some txb ∧
    ∃ i < txa.vout.length, ⟨a, i⟩ ∈ txb.prevouts

/-- `pool'` is `pool` without the transactions `R`. -/
structure Without (getHash : CTransaction → Uint256) (T : Set CTransaction) (pool : CTxMemPool)
    (R : Set Uint256) (pool' : CTxMemPool) : Prop where
  inv : PoolInv getHash T pool'
  lookup_of_mem : ∀ {h}, h ∈ R → pool'.mapTx.lookup h = none
  lookup_of_not_mem : ∀ {h}, h ∉ R → pool'.mapTx.lookup h = pool.mapTx.lookup h

/-- `pool'` has lost the transactions `R` and kept the others. -/
def Removes (pool : CTxMemPool) (R : Set Uint256) (pool' : CTxMemPool) : Prop :=
  ∀ h, (h ∈ R → pool'.mapTx.lookup h = none) ∧ (h ∉ R → pool'.mapTx.lookup h = pool.mapTx.lookup h)

theorem Without.removes (h : Without getHash T pool R pool') : Removes pool R pool' :=
  fun _ => ⟨h.lookup_of_mem, h.lookup_of_not_mem⟩

/-! ### Consequences of the invariant -/

section

variable (hinv : PoolInv getHash T pool)

include hinv

theorem PoolInv.unique {h' : Uint256} {i i' : Nat}
    (htx : pool.mapTx.lookup h = some tx) (htx' : pool.mapTx.lookup h' = some tx')
    (ho : tx.prevouts[i]? = some o) (ho' : tx'.prevouts[i']? = some o) : h = h' ∧ i = i' := by
  have hnext : pool.mapNextTx.lookup o = some ⟨h, i⟩ := (hinv.mapNextTx_iff o _).mpr ⟨tx, htx, ho⟩
  have hnext' : pool.mapNextTx.lookup o = some ⟨h', i'⟩ :=
    (hinv.mapNextTx_iff o _).mpr ⟨tx', htx', ho'⟩
  have heq := Option.some.inj (hnext.symm.trans hnext')
  exact ⟨congrArg CInPoint.ptx heq, congrArg CInPoint.n heq⟩

theorem PoolInv.eq_of_mem {h' : Uint256}
    (htx : pool.mapTx.lookup h = some tx) (htx' : pool.mapTx.lookup h' = some tx')
    (ho : o ∈ tx.prevouts) (ho' : o ∈ tx'.prevouts) : h = h' := by
  obtain ⟨i, hi⟩ := List.mem_iff_getElem?.mp ho
  obtain ⟨i', hi'⟩ := List.mem_iff_getElem?.mp ho'
  exact (hinv.unique htx htx' hi hi').1

theorem PoolInv.not_spent (hnone : pool.mapNextTx.lookup o = none)
    (htx : pool.mapTx.lookup h = some tx) : o ∉ tx.prevouts := by
  intro ho
  obtain ⟨i, hi⟩ := List.mem_iff_getElem?.mp ho
  have hnext := (hinv.mapNextTx_iff o ⟨h, i⟩).mpr ⟨tx, htx, hi⟩
  rw [hnone] at hnext
  cases hnext

theorem PoolInv.refersTo {b : Uint256} (hab : pool.Spends a b) :
    RefersTo getHash T a b := by
  obtain ⟨_, txb, -, hb, i, -, ho⟩ := hab
  exact ⟨txb, (hinv.mem hb).1, (hinv.mem hb).2, _, ho, rfl⟩

theorem PoolInv.acyclic (hT : HashOk getHash T) (h : Uint256) :
    ¬ TransGen pool.Spends h h :=
  fun hh => hT.acyclic h (TransGen.mono (fun _ _ => hinv.refersTo) h h hh)

theorem PoolInv.same (hT : HashOk getHash T) (htx : tx ∈ T)
    (hl : pool.mapTx.lookup (getHash tx) = some tx') :
    tx'.prevouts = tx.prevouts ∧ tx'.vout.length = tx.vout.length := by
  obtain ⟨htx', hhash⟩ := hinv.mem hl
  obtain ⟨hvin, hvout⟩ :=
    CTransaction.serialized_inj (hT.noCollision tx' htx' tx htx hhash)
  exact ⟨by rw [CTransaction.prevouts, hvin, CTransaction.prevouts], hvout⟩

/-! ### Removals of sets -/

theorem Without.refl : Without getHash T pool ∅ pool :=
  ⟨hinv, fun hmem => absurd hmem (Set.notMem_empty _), fun _ => rfl⟩

end

theorem Without.trans {R' : Set Uint256} {pool'' : CTxMemPool} (h : Without getHash T pool R pool')
    (h' : Without getHash T pool' R' pool'') :
    Without getHash T pool (R ∪ R') pool'' := by
  refine ⟨h'.inv, fun {k} hk => ?_, fun {k} hk => ?_⟩
  · by_cases hk' : k ∈ R'
    · exact h'.lookup_of_mem hk'
    · rw [h'.lookup_of_not_mem hk']
      exact h.lookup_of_mem (hk.resolve_right hk')
  · rw [Set.mem_union, not_or] at hk
    rw [h'.lookup_of_not_mem hk.2, h.lookup_of_not_mem hk.1]

theorem Without.lookup_some (h : Without getHash T pool R pool') {k : Uint256}
    (hk : pool'.mapTx.lookup k = some tx) :
    k ∉ R ∧ pool.mapTx.lookup k = some tx := by
  have hmem : k ∉ R := by
    intro hmem
    rw [h.lookup_of_mem hmem] at hk
    cases hk
  exact ⟨hmem, by rw [← h.lookup_of_not_mem hmem]; exact hk⟩

theorem Without.avoiding (h : Without getHash T pool R pool') :
    Reach.Avoiding pool.Spends pool'.Spends R := by
  intro a b
  constructor
  · rintro ⟨txa, txb, ha, hb, i, hi, ho⟩
    obtain ⟨haR, ha'⟩ := h.lookup_some ha
    obtain ⟨hbR, hb'⟩ := h.lookup_some hb
    exact ⟨⟨txa, txb, ha', hb', i, hi, ho⟩, haR, hbR⟩
  · rintro ⟨⟨txa, txb, ha, hb, i, hi, ho⟩, haR, hbR⟩
    exact ⟨txa, txb, by rw [h.lookup_of_not_mem haR]; exact ha,
      by rw [h.lookup_of_not_mem hbR]; exact hb, i, hi, ho⟩

/-- What descends from `a` in the smaller pool, and what was removed, is what descends from `a` in
the larger pool and what was removed. -/
theorem Without.union_reach (h : Without getHash T pool R pool') (hR : Reach.Closed pool.Spends R)
    (a : Uint256) :
    R ∪ {b | ReflTransGen pool'.Spends a b} = R ∪ {b | ReflTransGen pool.Spends a b} := by
  ext b
  constructor
  · rintro (hb | hb)
    · exact .inl hb
    · exact .inr (Reach.reach_of_avoiding h.avoiding hb)
  · rintro (hb | hb)
    · exact .inl hb
    · exact Reach.reach_or_mem hR h.avoiding hb

/-- The hashes of the pool. -/
def hashes (pool : CTxMemPool) : Finset Uint256 := pool.mapTx.keys.toFinset

theorem mem_hashes : h ∈ pool.hashes ↔ ∃ tx, pool.mapTx.lookup h = some tx := by
  rw [hashes, List.mem_toFinset]
  change h ∈ pool.mapTx ↔ _
  rw [← AList.lookup_isSome, Option.isSome_iff_exists]

theorem Without.hashes_subset (h : Without getHash T pool R pool') :
    pool'.hashes ⊆ pool.hashes := by
  intro k hk
  obtain ⟨tx, htx⟩ := mem_hashes.mp hk
  exact mem_hashes.mpr ⟨tx, (h.lookup_some htx).2⟩

/-- The number of pool transactions that descend from `a`. -/
noncomputable def descendantCount (pool : CTxMemPool) (a : Uint256) : Nat :=
  (Reach.descendants pool.Spends pool.hashes a).card

theorem descendantCount_lt_depth (pool : CTxMemPool) (a : Uint256) :
    pool.descendantCount a < pool.depth := by
  have hle := Reach.card_descendants_le pool.Spends pool.hashes a
  have hcard : pool.hashes.card ≤ pool.mapTx.entries.length := by
    have := List.toFinset_card_le pool.mapTx.keys
    rwa [AList.keys, List.keys, List.length_map] at this
  rw [descendantCount, depth]
  omega

theorem Without.descendantCount_le (h : Without getHash T pool R pool') (a : Uint256) :
    pool'.descendantCount a ≤ pool.descendantCount a :=
  Reach.card_descendants_mono h.hashes_subset fun x y hxy => ((h.avoiding x y).mp hxy).1

/-! ### The operations -/

/-- The inserting loop of `addUnchecked`, for outpoints that are all different. -/
theorem lookup_foldl_insert (h : Uint256) (l : List (COutPoint × Nat)) :
    ∀ (m : StdMap COutPoint CInPoint), (l.map Prod.fst).Nodup → ∀ o it,
      (l.foldl (fun m (o, i) => m.insert o ⟨h, i⟩) m).lookup o = some it ↔
        (it.ptx = h ∧ (o, it.n) ∈ l) ∨ (o ∉ l.map Prod.fst ∧ m.lookup o = some it) := by
  induction l with
  | nil => intro m _ o it; simp
  | cons e l ih =>
    obtain ⟨o', i'⟩ := e
    intro m hnodup o it
    rw [List.map_cons, List.nodup_cons] at hnodup
    rw [List.foldl_cons, ih _ hnodup.2]
    by_cases ho : o = o'
    · subst ho
      have hnot : ∀ n, (o, n) ∉ l := fun n hn => hnodup.1 (List.mem_map.mpr ⟨(o, n), hn, rfl⟩)
      have hit : some (⟨h, i'⟩ : CInPoint) = some it ↔ it.ptx = h ∧ it.n = i' := by
        constructor
        · intro heq
          rw [← Option.some.inj heq]
          exact ⟨rfl, rfl⟩
        · rintro ⟨rfl, rfl⟩; rfl
      simp only [hnot, and_false, hnodup.1, not_false_eq_true, AList.lookup_insert, true_and,
        false_or, List.mem_cons, Prod.mk.injEq, or_false, List.map_cons, not_true_eq_false,
        false_and, hit]
    · simp [ho, AList.lookup_insert_ne ho]

theorem eraseTx_without (hinv : PoolInv getHash T pool) (hl : pool.mapTx.lookup h = some tx')
    (hsame : tx'.prevouts = tx.prevouts) :
    Without getHash T pool {h} (pool.eraseTx h tx) := by
  have hlookup : ∀ k, (pool.eraseTx h tx).mapTx.lookup k
      = if k = h then none else pool.mapTx.lookup k := by
    intro k
    by_cases hk : k = h
    · subst hk; simp [eraseTx]
    · simp [eraseTx, hk, AList.lookup_erase_ne hk]
  refine ⟨⟨fun {k t} hk => ?_, fun o it => ?_⟩, fun hk => ?_, fun hk => ?_⟩
  · rw [hlookup] at hk
    split_ifs at hk
    exact hinv.mem hk
  · rw [eraseTx, MapLoop.lookup_foldl_erase]
    change _ ↔ ∃ t, (pool.eraseTx h tx).mapTx.lookup it.ptx = some t ∧ t.prevouts[it.n]? = some o
    rw [hlookup]
    constructor
    · intro hnext
      split_ifs at hnext with ho
      obtain ⟨t, ht, hto⟩ := (hinv.mapNextTx_iff o it).mp hnext
      have hne : it.ptx ≠ h := by
        rintro rfl
        rw [hl] at ht
        obtain rfl := Option.some.inj ht
        exact ho (by rw [← hsame]; exact List.mem_iff_getElem?.mpr ⟨_, hto⟩)
      exact ⟨t, by rw [if_neg hne]; exact ht, hto⟩
    · rintro ⟨t, ht, hto⟩
      split_ifs at ht with hk
      -- the erased transaction does not spend `o`, because another one does
      have ho : o ∉ tx.prevouts := by
        intro ho
        rw [← hsame] at ho
        exact hk (hinv.eq_of_mem ht hl (List.mem_iff_getElem?.mpr ⟨_, hto⟩) ho)
      rw [if_neg ho]
      exact (hinv.mapNextTx_iff o it).mpr ⟨t, ht, hto⟩
  · rw [hlookup, if_pos (Set.mem_singleton_iff.mp hk)]
  · rw [hlookup, if_neg fun heq => hk (Set.mem_singleton_iff.mpr heq)]

/-- `addUnchecked` keeps the invariant, for a new transaction whose outpoints are all different and
not spent in the pool. -/
theorem addUnchecked_inv (hinv : PoolInv getHash T pool) (htx : tx ∈ T) (hnodup : tx.prevouts.Nodup)
    (hnew : pool.mapTx.lookup (getHash tx) = none)
    (hfree : ∀ o ∈ tx.prevouts, pool.mapNextTx.lookup o = none) :
    PoolInv getHash T (pool.addUnchecked (getHash tx) tx) := by
  have hlookup : ∀ k, (pool.addUnchecked (getHash tx) tx).mapTx.lookup k
      = if k = getHash tx then some tx else pool.mapTx.lookup k := by
    intro k
    by_cases hk : k = getHash tx
    · subst hk; simp [addUnchecked]
    · simp [addUnchecked, hk, AList.lookup_insert_ne hk]
  refine ⟨fun {k t} hk => ?_, fun o it => ?_⟩
  · rw [hlookup] at hk
    split_ifs at hk with heq
    · obtain rfl := Option.some.inj hk
      exact ⟨htx, heq.symm⟩
    · exact hinv.mem hk
  · rw [hlookup, addUnchecked, lookup_foldl_insert _ _ _ (by rwa [List.zipIdx_map_fst]),
      List.zipIdx_map_fst, List.mem_zipIdx_iff_getElem?]
    constructor
    -- an output is spent by the new transaction or by one that was there; never by both
    · rintro (⟨hptx, ho⟩ | ⟨-, hnext⟩)
      · exact ⟨tx, by rw [if_pos hptx], ho⟩
      · obtain ⟨t, ht, hto⟩ := (hinv.mapNextTx_iff o it).mp hnext
        have hne : it.ptx ≠ getHash tx := by
          rintro heq
          rw [heq, hnew] at ht
          cases ht
        exact ⟨t, by rw [if_neg hne]; exact ht, hto⟩
    · rintro ⟨t, ht, hto⟩
      split_ifs at ht with hptx
      · obtain rfl := Option.some.inj ht
        exact .inl ⟨hptx, hto⟩
      · have hnext := (hinv.mapNextTx_iff o it).mpr ⟨t, ht, hto⟩
        refine .inr ⟨fun ho => ?_, hnext⟩
        rw [hfree o ho] at hnext
        cases hnext

/-! ### Recursive removal -/

/-- The common form of the rounds of `remove` and `removeConflicts`: what `f` does with the
transaction that spends `o`, if there is one. -/
def visitSpender (f : CTxMemPool → CTransaction → Option CTxMemPool) (pool : CTxMemPool)
    (o : COutPoint) : Option CTxMemPool :=
  match pool.mapNextTx.lookup o with
  | none => some pool
  | some it =>
    match pool.mapTx.lookup it.ptx with
    | none => none
    | some tx => f pool tx

/-- The pool transactions with the property `P` that spend one of the outpoints `os`. -/
def spenders (pool : CTxMemPool) (P : CTransaction → Prop) (os : List COutPoint) : Set Uint256 :=
  {b | ∃ tx, pool.mapTx.lookup b = some tx ∧ P tx ∧ ∃ o ∈ os, o ∈ tx.prevouts}

/-- What descends from one of them. -/
def fromSpenders (pool : CTxMemPool) (P : CTransaction → Prop) (os : List COutPoint) :
    Set Uint256 :=
  {h | ∃ b ∈ pool.spenders P os, ReflTransGen pool.Spends b h}

theorem fromSpenders_nil (P : CTransaction → Prop) : pool.fromSpenders P [] = ∅ := by
  ext h
  simp [fromSpenders, spenders]

theorem fromSpenders_append (P : CTransaction → Prop) (os os' : List COutPoint) :
    pool.fromSpenders P (os ++ os') = pool.fromSpenders P os ∪ pool.fromSpenders P os' := by
  ext h
  simp only [fromSpenders, spenders, Set.mem_ofPred_eq, Set.mem_union, List.mem_append]
  constructor
  · rintro ⟨b, ⟨tx, hb, hP, o, ho | ho, hmem⟩, hreach⟩
    · exact .inl ⟨b, ⟨tx, hb, hP, o, ho, hmem⟩, hreach⟩
    · exact .inr ⟨b, ⟨tx, hb, hP, o, ho, hmem⟩, hreach⟩
  · rintro (⟨b, ⟨tx, hb, hP, o, ho, hmem⟩, hreach⟩ | ⟨b, ⟨tx, hb, hP, o, ho, hmem⟩, hreach⟩)
    · exact ⟨b, ⟨tx, hb, hP, o, .inl ho, hmem⟩, hreach⟩
    · exact ⟨b, ⟨tx, hb, hP, o, .inr ho, hmem⟩, hreach⟩

theorem fromSpenders_singleton (hinv : PoolInv getHash T pool) (P : CTransaction → Prop) {b : Uint256}
    (hb : pool.mapTx.lookup b = some tx) (ho : o ∈ tx.prevouts) :
    pool.fromSpenders P [o] = {h | P tx ∧ ReflTransGen pool.Spends b h} := by
  ext h
  constructor
  · rintro ⟨b', ⟨tx', hb', hP, o', ho', hmem⟩, hreach⟩
    obtain rfl := List.mem_singleton.mp ho'
    obtain rfl := hinv.eq_of_mem hb' hb hmem ho
    obtain rfl := Option.some.inj (hb.symm.trans hb')
    exact ⟨hP, hreach⟩
  · rintro ⟨hP, hreach⟩
    exact ⟨b, ⟨tx, hb, hP, o, by simp, ho⟩, hreach⟩

/-- **The loop of `remove` and `removeConflicts`.**  If `f` removes what descends from its argument,
or nothing when the argument does not have the property `P`, the loop removes what descends from the
spenders with that property. -/
theorem visitSpenders_spec (P : CTransaction → Prop)
    (f : CTxMemPool → CTransaction → Option CTxMemPool) (os : List COutPoint)
    (hinv : PoolInv getHash T pool)
    (hf : ∀ p b tx R, Without getHash T pool R p → p.mapTx.lookup b = some tx →
      (∃ o ∈ os, o ∈ tx.prevouts) → ∃ p', f p tx = some p' ∧
        Without getHash T p {h | P tx ∧ ReflTransGen p.Spends b h} p') :
    ∃ pool', os.foldlM (visitSpender f) pool = some pool' ∧
      Without getHash T pool (pool.fromSpenders P os) pool' := by
  refine Loop.foldlM_total (fun done p => Without getHash T pool (pool.fromSpenders P done) p)
    (by rw [fromSpenders_nil]; exact Without.refl hinv) ?_
  intro done o rest p hos hp
  have hclosed : Reach.Closed pool.Spends (pool.fromSpenders P done) := Reach.closed_reach _ _
  rw [fromSpenders_append]
  cases hnext : p.mapNextTx.lookup o with
  | none =>
    -- whoever spent `o` has been removed in an earlier round
    refine ⟨p, by rw [visitSpender, hnext]; rfl, ?_⟩
    have hsub : pool.fromSpenders P [o] ⊆ pool.fromSpenders P done := by
      rintro h ⟨b, ⟨tx, hb, hP, o', ho', hmem⟩, hreach⟩
      obtain rfl := List.mem_singleton.mp ho'
      refine hclosed.mem_of_reach ?_ hreach
      by_contra hbR
      rw [← hp.lookup_of_not_mem hbR] at hb
      exact hp.inv.not_spent hnext hb hmem
    rw [Set.union_eq_left.mpr hsub]
    exact hp
  | some it =>
    obtain ⟨tx, htx, hn⟩ := (hp.inv.mapNextTx_iff o it).mp hnext
    have ho : o ∈ tx.prevouts := List.mem_iff_getElem?.mpr ⟨_, hn⟩
    obtain ⟨p', hfp, hp'⟩ := hf p it.ptx tx _ hp htx ⟨o, by rw [hos]; simp, ho⟩
    refine ⟨p', by rw [visitSpender, hnext]; simp only [htx]; exact hfp, ?_⟩
    have hall := hp.trans hp'
    rw [fromSpenders_singleton hinv P (hp.lookup_some htx).2 ho]
    by_cases hP : P tx
    · simp only [hP, true_and] at hall ⊢
      rw [← hp.union_reach hclosed]
      exact hall
    · simp only [hP, false_and, Set.ofPred_false] at hall ⊢
      exact hall

/-- What a recursive `remove` of a transaction with hash `a` removes. -/
def descendantsOf (pool : CTxMemPool) (a : Uint256) : Set Uint256 :=
  {h | pool.contains a = true ∧ ReflTransGen pool.Spends a h}

/-- The outpoints of a transaction with hash `a` and `n` outputs. -/
def outpoints (a : Uint256) (n : Nat) : List COutPoint := (List.range n).map fun i => ⟨a, i⟩

theorem spends_iff {b : Uint256} (ha : pool.mapTx.lookup a = some txa) :
    pool.Spends a b ↔ b ∈ pool.spenders (fun _ => True) (outpoints a txa.vout.length) := by
  constructor
  · rintro ⟨txa', txb, ha', hb, i, hi, hmem⟩
    obtain rfl := Option.some.inj (ha.symm.trans ha')
    exact ⟨txb, hb, trivial, ⟨a, i⟩, List.mem_map.mpr ⟨i, List.mem_range.mpr hi, rfl⟩, hmem⟩
  · rintro ⟨txb, hb, -, o, ho, hmem⟩
    obtain ⟨i, hi, rfl⟩ := List.mem_map.mp ho
    exact ⟨txa, txb, ha, hb, i, List.mem_range.mp hi, hmem⟩

theorem descendantsOf_eq (ha : pool.mapTx.lookup a = some txa) : pool.descendantsOf a
      = pool.fromSpenders (fun _ => True) (outpoints a txa.vout.length) ∪ {a} := by
  have hin : pool.contains a = true := by rw [contains, ha]; rfl
  ext h
  constructor
  · rintro ⟨-, hreach⟩
    rcases hreach.cases_head with rfl | ⟨b, hab, hreach'⟩
    · exact .inr rfl
    · exact .inl ⟨b, (spends_iff ha).mp hab, hreach'⟩
  · rintro (⟨b, hb, hreach⟩ | rfl)
    · exact ⟨hin, .head ((spends_iff ha).mpr hb) hreach⟩
    · exact ⟨hin, .refl⟩

theorem descendantsOf_of_not_contains (ha : ¬ pool.contains a = true) :
    pool.descendantsOf a = ∅ := by
  ext h
  simp [descendantsOf, ha]

theorem descendantsOf_of_lookup (ha : pool.mapTx.lookup a = some tx) :
    pool.descendantsOf a = {h | ReflTransGen pool.Spends a h} := by
  have hin : pool.contains a = true := by rw [contains, ha]; rfl
  ext h
  simp [descendantsOf, hin]

/-- The output loop of a recursive `remove`, with the recursive call as it should be. -/
theorem removeOutputs_spec (hT : HashOk getHash T) {depth : Nat}
    (ih : ∀ p t, PoolInv getHash T p → t ∈ T → p.descendantCount (getHash t) < depth →
        ∃ p', removeRec getHash depth p t = some p' ∧ Without getHash T p (p.descendantsOf (getHash t)) p')
    (hinv : PoolInv getHash T pool) (ha : pool.mapTx.lookup (getHash tx) = some txa)
    (hlen : txa.vout.length = tx.vout.length) (hcount : pool.descendantCount (getHash tx) < depth + 1) :
    ∃ pool', (List.range tx.vout.length).foldlM
        (removeSpender (removeRec getHash depth) (getHash tx)) pool = some pool' ∧
      Without getHash T pool
        (pool.fromSpenders (fun _ => True) (outpoints (getHash tx) txa.vout.length)) pool' := by
  have hround : ∀ p b txb R, Without getHash T pool R p → p.mapTx.lookup b = some txb →
      (∃ o ∈ outpoints (getHash tx) txa.vout.length, o ∈ txb.prevouts) →
      ∃ p', removeRec getHash depth p txb = some p' ∧
        Without getHash T p {h | True ∧ ReflTransGen p.Spends b h} p' := by
    intro p b txb R hp hb ho
    have hb0 := (hp.lookup_some hb).2
    obtain ⟨hmem, rfl⟩ := hp.inv.mem hb
    have hlt : pool.descendantCount (getHash txb) < pool.descendantCount (getHash tx) :=
      Reach.card_descendants_lt (hinv.acyclic hT) (mem_hashes.mpr ⟨txb, hb0⟩)
        ((spends_iff ha).mpr ⟨txb, hb0, trivial, ho⟩)
    have hle := hp.descendantCount_le (getHash txb)
    obtain ⟨p', hrec, hp'⟩ := ih p txb hp.inv hmem (by omega)
    rw [descendantsOf_of_lookup hb] at hp'
    exact ⟨p', hrec, by simpa using hp'⟩
  obtain ⟨pool', hloop, hpool'⟩ := visitSpenders_spec _ _ _ hinv hround
  refine ⟨pool', ?_, hpool'⟩
  rw [outpoints, List.foldlM_map, hlen] at hloop
  exact hloop

/-- **Recursive removal** ends when the depth allowed exceeds the number of descendants, and removes
the transaction and its descendants. -/
theorem removeRec_spec (hT : HashOk getHash T) :
    ∀ depth pool tx, PoolInv getHash T pool → tx ∈ T →
      pool.descendantCount (getHash tx) < depth →
      ∃ pool', removeRec getHash depth pool tx = some pool' ∧
        Without getHash T pool (pool.descendantsOf (getHash tx)) pool' := by
  intro depth
  induction depth with
  | zero => intro pool tx _ _ hcount; omega
  | succ depth ih =>
    intro pool tx hinv htx hcount
    by_cases hin : pool.contains (getHash tx) = true
    · obtain ⟨txa, ha⟩ : ∃ txa, pool.mapTx.lookup (getHash tx) = some txa :=
        Option.isSome_iff_exists.mp hin
      obtain ⟨hprev, hlen⟩ := hinv.same hT htx ha
      obtain ⟨pool1, hloop, hpool1⟩ := removeOutputs_spec hT ih hinv ha hlen hcount
      -- the transaction itself is still there when its outputs have been handled
      have hnot : getHash tx
          ∉ pool.fromSpenders (fun _ => True) (outpoints (getHash tx) txa.vout.length) := by
        rintro ⟨b, hb, hreach⟩
        exact hinv.acyclic hT _ (TransGen.head' ((spends_iff ha).mpr hb) hreach)
      have ha1 : pool1.mapTx.lookup (getHash tx) = some txa := by
        rw [hpool1.lookup_of_not_mem hnot]; exact ha
      refine ⟨pool1.eraseTx (getHash tx) tx, ?_, ?_⟩
      · rw [removeRec, if_pos hin, hloop]
        rfl
      · rw [descendantsOf_eq ha]
        exact hpool1.trans (eraseTx_without hpool1.inv ha1 hprev)
    · refine ⟨pool, by rw [removeRec, if_neg hin], ?_⟩
      rw [descendantsOf_of_not_contains hin]
      exact Without.refl hinv

/-- **`removeConflicts`** ends and removes what descends from a transaction other than `tx` that
spends an outpoint of `tx`. -/
theorem removeConflictsRec_spec (hT : HashOk getHash T) (hinv : PoolInv getHash T pool)
    (tx : CTransaction) :
    ∃ pool', removeConflictsRec getHash pool.depth pool tx = some pool' ∧
      Without getHash T pool (pool.fromSpenders (· ≠ tx) tx.prevouts) pool' := by
  refine visitSpenders_spec (· ≠ tx)
    (fun p t => if t ≠ tx then removeRec getHash pool.depth p t else some p) tx.prevouts hinv ?_
  intro p b txb R hp hb _
  by_cases hne : txb ≠ tx
  · obtain ⟨hmem, rfl⟩ := hp.inv.mem hb
    have hle := hp.descendantCount_le (getHash txb)
    have hlt := descendantCount_lt_depth pool (getHash txb)
    obtain ⟨p', hrec, hp'⟩ := removeRec_spec hT pool.depth p txb hp.inv hmem (by omega)
    rw [descendantsOf_of_lookup hb] at hp'
    exact ⟨p', by rw [if_pos hne, hrec], by simpa [hne] using hp'⟩
  · refine ⟨p, by rw [if_neg hne], ?_⟩
    simp only [hne, false_and, Set.ofPred_false]
    exact Without.refl hp.inv

/-! ### Runs -/

/-- One operation on the pool, with a transaction of `T`.  `add` is `addUnchecked` as
`AcceptToMemoryPool` calls it: after `CheckTransaction`, for a transaction that is not in the pool
and whose outpoints are not in `mapNextTx`. -/
inductive PoolStep (getHash : CTransaction → Uint256) (T : Set CTransaction) :
    CTxMemPool → CTxMemPool → Prop
  | add {pool : CTxMemPool} {tx : CTransaction} (htx : tx ∈ T)
      (hcheck : tx.checkTransaction = .ok ()) (hnew : pool.contains (getHash tx) = false)
      (hfree : ∀ o ∈ tx.prevouts, pool.mapNextTx.lookup o = none) :
      PoolStep getHash T pool (pool.addUnchecked (getHash tx) tx)
  | remove {pool : CTxMemPool} {tx : CTransaction} (htx : tx ∈ T) (fRecursive : Bool) :
      PoolStep getHash T pool (pool.remove getHash tx fRecursive)
  | removeConflicts {pool : CTxMemPool} {tx : CTransaction} (htx : tx ∈ T) :
      PoolStep getHash T pool (pool.removeConflicts getHash tx)
  | clear {pool : CTxMemPool} : PoolStep getHash T pool pool.clear

theorem poolInv_empty (n : Nat) :
    PoolInv getHash T { nTransactionsUpdated := n } := by
  constructor
  · intro h tx hl; simp at hl
  · intro o it; simp

theorem remove_without (hT : HashOk getHash T) (hinv : PoolInv getHash T pool) (htx : tx ∈ T)
    (fRecursive : Bool) :
    ∃ R, Without getHash T pool R (pool.remove getHash tx fRecursive) := by
  unfold remove
  split_ifs with hrec hin
  · obtain ⟨pool', hrem, hpool'⟩ := removeRec_spec hT pool.depth pool tx hinv htx
      (descendantCount_lt_depth pool _)
    rw [hrem]
    exact ⟨_, hpool'⟩
  · obtain ⟨txa, ha⟩ := Option.isSome_iff_exists.mp hin
    exact ⟨_, eraseTx_without hinv ha (hinv.same hT htx ha).1⟩
  · exact ⟨∅, Without.refl hinv⟩

theorem removeConflicts_without (hT : HashOk getHash T) (hinv : PoolInv getHash T pool)
    (tx : CTransaction) : Without getHash T pool (pool.fromSpenders (· ≠ tx) tx.prevouts)
      (pool.removeConflicts getHash tx) := by
  obtain ⟨pool', hrem, hpool'⟩ := removeConflictsRec_spec hT hinv tx
  rw [removeConflicts, hrem]
  exact hpool'

/-- **One operation keeps the invariant.** -/
theorem poolStep_inv (hT : HashOk getHash T) (hinv : PoolInv getHash T pool)
    (hstep : PoolStep getHash T pool pool') : PoolInv getHash T pool' := by
  cases hstep with
  | add htx hcheck hnew hfree =>
    have hnodup := (CTransaction.checkTransaction_ok hcheck).2.2.1
    exact addUnchecked_inv hinv htx hnodup (by simpa [contains] using hnew) hfree
  | remove htx fRecursive =>
    obtain ⟨R, hR⟩ := remove_without hT hinv htx fRecursive
    exact hR.inv
  | removeConflicts htx => exact (removeConflicts_without hT hinv _).inv
  | clear => exact poolInv_empty _

theorem poolRun_inv (hT : HashOk getHash T) (hrun : ReflTransGen (PoolStep getHash T) {} pool) :
    PoolInv getHash T pool := by
  induction hrun with
  | refl => exact poolInv_empty 0
  | tail _ hstep ih => exact poolStep_inv hT ih hstep

/-- `CheckTransaction` lets no transaction without inputs into the pool. -/
theorem poolRun_prevouts (hT : HashOk getHash T) (hrun : ReflTransGen (PoolStep getHash T) {} pool) :
    ∀ {h tx}, pool.mapTx.lookup h = some tx → tx.prevouts ≠ [] := by
  induction hrun with
  | refl =>
    intro h tx hl
    simp at hl
  | tail hrun hstep ih =>
    have hinv := poolRun_inv hT hrun
    intro h tx hl
    cases hstep with
    | @add txNew htx hcheck hnew hfree =>
      by_cases hh : h = getHash txNew
      · rw [hh, addUnchecked, AList.lookup_insert] at hl
        obtain rfl := Option.some.inj hl
        exact fun hnil => (CTransaction.checkTransaction_ok hcheck).1 (List.map_eq_nil_iff.mp hnil)
      · rw [addUnchecked, AList.lookup_insert_ne hh] at hl
        exact ih hl
    | remove htx fRecursive =>
      obtain ⟨R, hR⟩ := remove_without hT hinv htx fRecursive
      exact ih (hR.lookup_some hl).2
    | removeConflicts htx => exact ih ((removeConflicts_without hT hinv _).lookup_some hl).2
    | clear => simp [clear] at hl

/-! ### Conflicts -/

/-- `removeConflicts tx` removes just the pool transactions other than `tx`, as the hashes tell them
apart, that spend an outpoint of `tx`, with their descendants. -/
def RemovesOthers (getHash : CTransaction → Uint256) (pool : CTxMemPool) (tx : CTransaction) : Prop :=
  Removes pool (pool.fromSpenders (fun txc => getHash txc ≠ getHash tx) tx.prevouts)
    (pool.removeConflicts getHash tx)

/-- A pool transaction with the hash of `tx` has the rounds of `tx`. -/
def SameRounds (getHash : CTransaction → Uint256) (pool : CTxMemPool) (tx : CTransaction) : Prop :=
  ∀ txc, pool.mapTx.lookup (getHash tx) = some txc →
    txc.vout.map CTxOut.nRounds = tx.vout.map CTxOut.nRounds

theorem fromSpenders_congr {P Q : CTransaction → Prop}
    (h : ∀ {b txb}, pool.mapTx.lookup b = some txb → (P txb ↔ Q txb)) (os : List COutPoint) :
    pool.fromSpenders P os = pool.fromSpenders Q os := by
  have hspenders : pool.spenders P os = pool.spenders Q os :=
    Set.ext fun _ => exists_congr fun _ => and_congr_right fun hb => and_congr_left fun _ => h hb
  rw [fromSpenders, hspenders, fromSpenders]

/-- What spends an outpoint of `tx` and is not it, is not in a pool that has a copy of `tx`. -/
theorem fromSpenders_of_copy (hinv : PoolInv getHash T pool) {P : CTransaction → Prop}
    (hcopy : pool.mapTx.lookup h = some tx') (hsame : tx'.prevouts = tx.prevouts) (hP : ¬ P tx') :
    pool.fromSpenders P tx.prevouts = ∅ := by
  refine Set.eq_empty_of_forall_notMem ?_
  rintro k ⟨b, ⟨txb, hb, hPb, o, ho, hmem⟩, -⟩
  obtain rfl := hinv.eq_of_mem hb hcopy hmem (hsame ▸ ho)
  obtain rfl := Option.some.inj (hb.symm.trans hcopy)
  exact hP hPb

/-- **The other transactions** are removed, and no more, if and only if the transaction in the pool that
has the hash of `tx`, if there is one, has its rounds as well. -/
theorem removesOthers_iff (hT : HashOk getHash T) (hinv : PoolInv getHash T pool)
    (hprev : ∀ {h tx}, pool.mapTx.lookup h = some tx → tx.prevouts ≠ []) (htx : tx ∈ T) :
    RemovesOthers getHash pool tx ↔ SameRounds getHash pool tx := by
  have hR := removeConflicts_without hT hinv tx
  constructor
  · intro h txc hcopy
    by_contra hrounds
    have hsame := (hinv.same hT htx hcopy).1
    obtain ⟨o, ho⟩ := List.exists_mem_of_ne_nil _ (hprev hcopy)
    have hlost := hR.lookup_of_mem (h := getHash tx)
      ⟨_, ⟨txc, hcopy, fun heq => hrounds (heq ▸ rfl), o, hsame ▸ ho, ho⟩, .refl⟩
    have hkept := (h (getHash tx)).2 (by
      rw [fromSpenders_of_copy hinv hcopy hsame fun hne => hne (hinv.mem hcopy).2]
      exact Set.notMem_empty _)
    rw [hlost, hcopy] at hkept
    cases hkept
  · intro h
    rw [RemovesOthers, ← fromSpenders_congr fun {b txb} hb => ?_]
    · exact hR.removes
    · refine not_congr ⟨fun heq => heq ▸ rfl, fun hhash => ?_⟩
      obtain ⟨htxb, rfl⟩ := hinv.mem hb
      rw [hhash] at hb
      exact (CTransaction.eq_iff_nRounds (hT.noCollision _ htxb _ htx hhash)).mpr (h _ hb)

/-- **The pool after any sequence of operations.**  `mapNextTx` holds exactly the inputs of the
transactions in `mapTx`, and no two of these spend one outpoint.  A recursive `remove` of a pool
transaction ends and removes exactly that transaction and its descendants in the pool;
`removeConflicts` ends and removes exactly the pool transactions that differ from its argument, in
`nRounds` or elsewhere, and spend one of its outpoints, with their descendants.  So it spares the
transaction with the hash of its argument exactly when that has the same rounds. -/
theorem poolRun_spec (hT : HashOk getHash T)
    (hrun : ReflTransGen (PoolStep getHash T) {} pool) :
    (∀ o it, pool.mapNextTx.lookup o = some it ↔
      ∃ tx, pool.mapTx.lookup it.ptx = some tx ∧ tx.prevouts[it.n]? = some o) ∧
    (∀ h tx h' tx' o, pool.mapTx.lookup h = some tx → pool.mapTx.lookup h' = some tx' →
      o ∈ tx.prevouts → o ∈ tx'.prevouts → h = h') ∧
    (∀ tx ∈ T, pool.contains (getHash tx) = true →
      ∃ pool', removeRec getHash pool.depth pool tx = some pool' ∧
        pool.remove getHash tx true = pool' ∧
        Removes pool {h | ReflTransGen pool.Spends (getHash tx) h} pool') ∧
    (∀ tx ∈ T, ∃ pool', removeConflictsRec getHash pool.depth pool tx = some pool' ∧
      pool.removeConflicts getHash tx = pool' ∧
      Removes pool (pool.fromSpenders (· ≠ tx) tx.prevouts) pool') ∧
    ∀ tx ∈ T, RemovesOthers getHash pool tx ↔ SameRounds getHash pool tx := by
  have hinv := poolRun_inv hT hrun
  -- the recursion has fuel enough, since no transaction has more descendants than the pool is deep
  refine ⟨hinv.mapNextTx_iff, fun h tx h' tx' o => hinv.eq_of_mem, fun tx htx hin => ?_,
    fun tx htx => ?_, fun tx htx => removesOthers_iff hT hinv (poolRun_prevouts hT hrun) htx⟩
  · obtain ⟨pool', hrem, hpool'⟩ := removeRec_spec hT pool.depth pool tx hinv htx
      (descendantCount_lt_depth pool _)
    obtain ⟨txa, ha⟩ := Option.isSome_iff_exists.mp hin
    rw [descendantsOf_of_lookup ha] at hpool'
    exact ⟨pool', hrem, by rw [remove, if_pos rfl, hrem]; rfl, hpool'.removes⟩
  · obtain ⟨pool', hrem, hpool'⟩ := removeConflictsRec_spec hT hinv tx
    exact ⟨pool', hrem, by rw [removeConflicts, hrem]; rfl, hpool'.removes⟩

/-! ### A parent and its child -/

def parentTx : CTransaction :=
  { nTime := 1, vin := [⟨⟨7, 0⟩, [], uintMax⟩], vout := [⟨5, [1], -10⟩, ⟨5, [1], -10⟩] }

def childTx : CTransaction :=
  { nTime := 2, vin := [⟨⟨1001, 1⟩, [], uintMax⟩], vout := [⟨4, [1], -10⟩] }

def familyHash (tx : CTransaction) : Uint256 := 1000 + tx.nTime

/-- Transactions that refer only to smaller hashes do not refer to each other in a circle. -/
theorem acyclic_of_lt {getHash : CTransaction → Uint256} {T : Set CTransaction}
    (hlt : ∀ a b, RefersTo getHash T a b → a < b) (h : Uint256) : ¬ TransGen (RefersTo getHash T) h h := by
  intro hh
  have hrise : ∀ a b, TransGen (RefersTo getHash T) a b → a < b := by
    intro a b hab
    induction hab with
    | single hab => exact hlt _ _ hab
    | tail _ hbc ih => exact ih.trans (hlt _ _ hbc)
  exact lt_irrefl h (hrise h h hh)

/-- The parent before it was written and read back: `nRounds` of its first output is another one. -/
def localTx : CTransaction := { parentTx with vout := [⟨5, [1], 0⟩, ⟨5, [1], -10⟩] }

theorem hashOk_family : HashOk familyHash {parentTx, childTx, localTx} := by
  constructor
  · rintro tx (rfl | rfl | rfl) tx' (rfl | rfl | rfl) heq
    all_goals first | rfl | exact absurd heq (by decide)
  · refine acyclic_of_lt ?_
    rintro a b ⟨tx, htx, rfl, o, ho, rfl⟩
    rcases htx with rfl | rfl | rfl
    all_goals
      revert o
      decide

def familyPool : CTxMemPool :=
  (({} : CTxMemPool).addUnchecked (familyHash parentTx) parentTx).addUnchecked
    (familyHash childTx) childTx

theorem poolRun_familyPool :
    ReflTransGen (PoolStep familyHash {parentTx, childTx, localTx}) {} familyPool := by
  refine .tail (.single (@PoolStep.add _ _ _ parentTx ?_ ?_ ?_ ?_))
    (@PoolStep.add _ _ _ childTx ?_ ?_ ?_ ?_)
  · exact .inl rfl
  · rfl
  · rfl
  · decide
  · exact .inr (.inl rfl)
  · rfl
  · rfl
  · decide

/-- Removing the parent removes the child; removing the conflicts of the parent removes nothing. -/
theorem poolRun_spec_family :
    familyPool.contains (familyHash childTx) = true ∧
      (familyPool.remove familyHash parentTx true).mapTx.lookup (familyHash childTx) = none ∧
      RemovesOthers familyHash familyPool parentTx := by
  obtain ⟨-, -, hremove, -, hothers⟩ := poolRun_spec hashOk_family poolRun_familyPool
  obtain ⟨pool', -, hpool', hspec⟩ := hremove parentTx (.inl rfl) (by decide)
  refine ⟨by decide, ?_, (hothers parentTx (.inl rfl)).mpr fun txc hcopy => ?_⟩
  · rw [hpool']
    exact (hspec _).1 (.single ⟨parentTx, childTx, by decide, by decide, 1, by decide, by decide⟩)
  · obtain rfl : parentTx = txc := Option.some.inj hcopy
    rfl

/-- **A transaction that conflicts with itself.**  The pool has the parent as it was before it was read
from a block, and loses it as a conflict. -/
theorem removeConflicts_local :
    HashOk familyHash {parentTx, childTx, localTx} ∧
      ∃ pool, ReflTransGen (PoolStep familyHash {parentTx, childTx, localTx}) {} pool ∧
        pool.mapTx.lookup (familyHash parentTx) = some localTx ∧
        ¬ RemovesOthers familyHash pool parentTx := by
  have hrun := ReflTransGen.single (@PoolStep.add familyHash {parentTx, childTx, localTx} {} localTx
    (.inr (.inr rfl)) rfl rfl (by decide))
  refine ⟨hashOk_family, _, hrun, rfl, fun hothers => ?_⟩
  have hrounds := (removesOthers_iff hashOk_family (poolRun_inv hashOk_family hrun)
    (poolRun_prevouts hashOk_family hrun) (.inl rfl)).mp hothers localTx rfl
  exact absurd hrounds (by decide)

end CTxMemPool

end Sphinx
