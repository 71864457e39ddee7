import Sphinx.Equiv.BlockRecords

/-!
# Reloading the block index

`LoadBlockIndex` creates the entry of a block when it meets its hash first, in its own record or in
that of a neighbour, and fills it in from its own record.  Where the records are those of an index
whose pointers lead to indexed blocks, nothing but these blocks is there in the end
(`loadRecords_spec`); going through them in the order of the heights gives each its chain trust
(`chainTrust_spec`).

* `loadBlockIndex_spec`: what is loaded, if memory and records are the same;
* `indexRun_reload`: after every run in which each `ConnectBlock` succeeds, a reload rebuilds the block
  index in memory.
-/

namespace Sphinx

open ParentTree Relation LoadedIndex
open CDiskBlockIndex (ofIndex)

variable {env : Env} {lctx : LoadCtx} {genesis tip : Uint256} {node : Node} {m : BlockMap}
variable {loaded : StdMap Uint256 CBlockIndex} {e : CBlockIndex} {key : DbKey}

/-- What the loop over the records makes of an entry: the chain trust is not stored. -/
def CBlockIndex.reread (e : CBlockIndex) : CBlockIndex := { e with nChainTrust := 0, nSequenceId := 0 }

/-- The entries of the blocks `done` are filled in; those that were only met as a neighbour are
empty. -/
structure LoadInv (m : BlockMap) (done : Set Uint256) (loaded : StdMap Uint256 CBlockIndex) :
    Prop where
  done_eq : ∀ h ∈ done, loaded.lookup h = (m h).map CBlockIndex.reread
  rest_eq : ∀ h, h ∉ done → loaded.lookup h = none ∨
    loaded.lookup h = some { hashBlock := h } ∧ h ∈ indexed m

/-- A pointer of an entry: null, or to an indexed block. -/
def PtrOk (m : BlockMap) (ptr : Option Uint256) : Prop := ∀ h, ptr = some h → h ≠ 0 ∧ h ∈ indexed m

/-- `InsertBlockIndex` turns the hash of an indexed block into a pointer. -/
theorem LoadInv.insertBlockIndex {done : Set Uint256} (h : LoadInv m done loaded) {ptr : Option Uint256}
    (hptr : PtrOk m ptr) (hdone : done ⊆ indexed m) :
    (LoadedIndex.insertBlockIndex loaded (ptr.getD 0)).2 = ptr ∧
      LoadInv m done (LoadedIndex.insertBlockIndex loaded (ptr.getD 0)).1 ∧
      ∀ k, (loaded.lookup k).isSome = true ∨ ptr = some k →
        ((LoadedIndex.insertBlockIndex loaded (ptr.getD 0)).1.lookup k).isSome = true := by
  cases ptr with
  | none =>
    refine ⟨rfl, h, fun k hk => ?_⟩
    exact hk.resolve_right (by rintro ⟨⟩)
  | some hash =>
    obtain ⟨hne, hmem⟩ := hptr hash rfl
    have heq : LoadedIndex.insertBlockIndex loaded hash
        = (MapLoop.insertNew { hashBlock := hash } loaded hash, some hash) := by
      unfold LoadedIndex.insertBlockIndex MapLoop.insertNew
      rw [if_neg hne]
      split <;> rfl
    rw [Option.getD_some, heq]
    refine ⟨rfl, ⟨fun k hk => ?_, fun k hk => ?_⟩, fun k hk => ?_⟩
    · -- an entry that is there is kept
      rw [MapLoop.lookup_insertNew, h.done_eq k hk]
      obtain ⟨e, he⟩ := exists_of_mem_indexed (hdone hk)
      rw [he]
      rfl
    · rw [MapLoop.lookup_insertNew]
      rcases h.rest_eq k hk with hnone | ⟨hsome, hmem'⟩
      · rw [hnone, Option.none_or]
        by_cases heq' : k = hash
        · subst heq'
          exact .inr ⟨if_pos rfl, hmem⟩
        · exact .inl (if_neg heq')
      · rw [hsome]
        exact .inr ⟨rfl, hmem'⟩
    · rw [MapLoop.lookup_insertNew]
      rcases hk with hk | hk
      · rw [Option.isSome_or, hk, Bool.true_or]
      · rw [Option.some.inj hk, if_pos rfl, Option.isSome_or, Option.isSome_some, Bool.or_true]

theorem unserialize_ofIndex (h : EntryOk env m e) :
    (ofIndex e).unserialize = ofIndex e := by
  unfold CDiskBlockIndex.unserialize
  split
  · rfl
  · next hstake =>
    obtain ⟨hprevout, htime⟩ := h.kernel (Bool.eq_false_of_not_eq_true hstake)
    rw [ofIndex, hprevout, htime]

theorem getBlockHash_ofIndex (h : EntryOk env m e) (lctx : LoadCtx) :
    (ofIndex e).getBlockHash env lctx = e.hashBlock := by
  unfold CDiskBlockIndex.getBlockHash
  split
  · rfl
  · exact h.header

theorem loadRecord_spec {done : Set Uint256} {st : LoadedIndex} (hinv : LoadInv m done st.mapBlockIndex)
    (hdone : done ⊆ indexed m) (hentry : m e.hashBlock = some e) (hfresh : e.hashBlock ∉ done)
    (hok : EntryOk env m e) (hnull : e.hashBlock ≠ 0) (hpprev : PtrOk m e.pprev)
    (hpnext : PtrOk m e.pnext) :
    ∃ st', loadRecord env lctx st (ofIndex e) = .ok st' ∧
      LoadInv m (insert e.hashBlock done) st'.mapBlockIndex := by
  have hself : PtrOk m (some e.hashBlock) := by
    rintro h ⟨⟩
    exact ⟨hnull, mem_indexed hentry⟩
  obtain ⟨hptr1, hinv1, hsome1⟩ := hinv.insertBlockIndex hself hdone
  rw [Option.getD_some] at hptr1 hinv1 hsome1
  rcases heq1 : LoadedIndex.insertBlockIndex st.mapBlockIndex e.hashBlock with ⟨loaded1, pindexNew⟩
  rw [heq1] at hptr1 hinv1 hsome1
  obtain ⟨hptr2, hinv2, hsome2⟩ := hinv1.insertBlockIndex hpprev hdone
  rcases heq2 : LoadedIndex.insertBlockIndex loaded1 (e.pprev.getD 0) with ⟨loaded2, pprev⟩
  rw [heq2] at hptr2 hinv2 hsome2
  obtain ⟨hptr3, hinv3, hsome3⟩ := hinv2.insertBlockIndex hpnext hdone
  rcases heq3 : LoadedIndex.insertBlockIndex loaded2 (e.pnext.getD 0) with ⟨loaded3, pnext⟩
  rw [heq3] at hptr3 hinv3 hsome3
  obtain rfl : pindexNew = some e.hashBlock := hptr1
  obtain rfl : pprev = e.pprev := hptr2
  obtain rfl : pnext = e.pnext := hptr3
  -- the entry of the block is still empty
  have hempty : loaded3.lookup e.hashBlock = some { hashBlock := e.hashBlock } := by
    have hsome := hsome3 _ (.inl (hsome2 _ (.inl (hsome1 _ (.inr rfl)))))
    rcases hinv3.rest_eq _ hfresh with hnone | ⟨hempty, -⟩
    · rw [hnone] at hsome
      cases hsome
    · exact hempty
  have hassign : assign { hashBlock := e.hashBlock } (ofIndex e) e.pprev e.pnext
      = e.reread := rfl
  have hprev : (ofIndex e).hashPrev = e.pprev.getD 0 := rfl
  have hnext : (ofIndex e).hashNext = e.pnext.getD 0 := rfl
  simp only [loadRecord, unserialize_ofIndex hok, getBlockHash_ofIndex hok, heq1, hprev, heq2, hnext,
    heq3, Option.bind_some, hempty, hassign]
  refine ⟨_, rfl, fun k hk => ?_, fun k hk => ?_⟩
  · by_cases hk' : k = e.hashBlock
    · rw [hk', AList.lookup_insert, hentry]
      rfl
    · rw [AList.lookup_insert_ne hk']
      exact hinv3.done_eq k (hk.resolve_left hk')
  · have hk' : k ≠ e.hashBlock := fun heq => hk (.inl heq)
    rw [AList.lookup_insert_ne hk']
    exact hinv3.rest_eq k fun hmem => hk (.inr hmem)

/-! ### The loop over the records -/

/-- An index whose entries are as they were created and whose pointers lead to indexed blocks. -/
structure Loadable (env : Env) (m : BlockMap) : Prop where
  hash : HashKeyed m
  entryOk : ∀ {h e}, m h = some e → EntryOk env m e
  nonzero : ∀ {h e}, m h = some e → h ≠ 0
  pprev : ∀ {h e}, m h = some e → PtrOk m e.pprev
  pnext : ∀ {h e}, m h = some e → PtrOk m e.pnext

theorem kind_of_firstByte (h : (DbKey.blockindex 0).firstByte ≤ key.firstByte) :
    (∃ hash, key = .blockindex hash) ∨ key = .hashBestChain ∨ key = .bnBestInvalidTrust := by
  cases key with
  | tx hash =>
    have hlt : "tx".length < "blockindex".length := by decide
    exact absurd h (not_le.mpr hlt)
  | adr addrHash =>
    have hlt : "adr".length < "blockindex".length := by decide
    exact absurd h (not_le.mpr hlt)
  | blockindex hash => exact .inl ⟨hash, rfl⟩
  | hashBestChain => exact .inr (.inl rfl)
  | bnBestInvalidTrust => exact .inr (.inr rfl)

theorem loadRecords_other (hkey : key.strType ≠ "blockindex") (value : DbVal)
    (rest : List (DbKey × DbVal)) (st : LoadedIndex) :
    loadRecords env lctx ((key, value) :: rest) st = .ok st := by
  unfold loadRecords
  exact if_pos hkey

theorem loadRecords_record (h : Uint256) (blockindex : CDiskBlockIndex)
    (rest : List (DbKey × DbVal)) (st : LoadedIndex) :
    loadRecords env lctx ((.blockindex h, .diskIndex blockindex) :: rest) st
      = loadRecord env lctx st blockindex >>= loadRecords env lctx rest := by
  have hkey : ¬ (DbKey.blockindex h).strType ≠ "blockindex" := not_not.mpr rfl
  rw [loadRecords, if_neg hkey]

/-- The hashes that have a record among the entries. -/
def recordHashes (entries : List (DbKey × DbVal)) : Set Uint256 :=
  {h | ∃ value, (DbKey.blockindex h, value) ∈ entries}

theorem recordHashes_record (hash : Uint256) (value : DbVal) (rest : List (DbKey × DbVal)) :
    recordHashes ((.blockindex hash, value) :: rest) = insert hash (recordHashes rest) := by
  ext h
  simp only [recordHashes, Set.mem_insert_iff, Set.mem_ofPred_eq, List.mem_cons, Prod.mk.injEq,
    DbKey.blockindex.injEq]
  constructor
  · rintro ⟨value', ⟨rfl, -⟩ | hmem⟩
    · exact .inl rfl
    · exact .inr ⟨value', hmem⟩
  · rintro (rfl | ⟨value', hmem⟩)
    · exact ⟨_, .inl ⟨rfl, rfl⟩⟩
    · exact ⟨value', .inr hmem⟩

/-- After another kind of key there is no record any more. -/
theorem recordHashes_other {value : DbVal} {rest : List (DbKey × DbVal)}
    (hordered : ∀ entry ∈ rest, key.firstByte ≤ entry.1.firstByte)
    (hlt : (DbKey.blockindex 0).firstByte < key.firstByte) :
    recordHashes ((key, value) :: rest) = ∅ := by
  refine Set.eq_empty_iff_forall_notMem.mpr ?_
  rintro h ⟨value', hmem⟩
  rcases List.mem_cons.mp hmem with heq | hmem
  · rw [← (Prod.mk.inj heq).1] at hlt
    exact absurd hlt (lt_irrefl _)
  · exact absurd (hordered _ hmem) (not_le.mpr hlt)

/-- The block index is read to the end and nothing else. -/
theorem loadRecords_spec (hm : Loadable env m) :
    ∀ (entries : List (DbKey × DbVal)) {done : Set Uint256} {st : LoadedIndex},
      (∀ entry ∈ entries, (DbKey.blockindex 0).firstByte ≤ entry.1.firstByte) →
      (entries.map Prod.fst).Nodup →
      (entries.Pairwise fun a b => a.1.firstByte ≤ b.1.firstByte) →
      (∀ h value, (DbKey.blockindex h, value) ∈ entries →
        h ∉ done ∧ ∃ e, m h = some e ∧ value = .diskIndex (ofIndex e)) →
      done ⊆ indexed m → LoadInv m done st.mapBlockIndex →
      ∃ st', loadRecords env lctx entries st = .ok st' ∧
        LoadInv m (done ∪ recordHashes entries) st'.mapBlockIndex := by
  intro entries
  induction entries with
  | nil =>
    intro done st _ _ _ _ _ hinv
    refine ⟨st, rfl, ?_⟩
    simpa [recordHashes] using hinv
  | cons entry rest ih =>
    intro done st hbyte hnodup hordered hrecords hdone hinv
    obtain ⟨key, value⟩ := entry
    rw [List.map_cons, List.nodup_cons] at hnodup
    rw [List.pairwise_cons] at hordered
    have hstop : key.strType ≠ "blockindex" → (DbKey.blockindex 0).firstByte < key.firstByte →
        ∃ st', loadRecords env lctx ((key, value) :: rest) st = .ok st' ∧
          LoadInv m (done ∪ recordHashes ((key, value) :: rest)) st'.mapBlockIndex := by
      intro htype hlt
      refine ⟨st, loadRecords_other htype value rest st, ?_⟩
      rw [recordHashes_other hordered.1 hlt, Set.union_empty]
      exact hinv
    rcases kind_of_firstByte (hbyte _ List.mem_cons_self) with ⟨hash, rfl⟩ | rfl | rfl
    · obtain ⟨hfresh, e, he, rfl⟩ := hrecords hash value List.mem_cons_self
      obtain rfl := hm.hash he
      obtain ⟨st1, hload, hinv1⟩ := loadRecord_spec hinv hdone he hfresh (hm.entryOk he)
        (hm.nonzero he) (hm.pprev he) (hm.pnext he)
      -- no record comes twice
      have hrecords' : ∀ h value', (DbKey.blockindex h, value') ∈ rest →
          h ∉ insert e.hashBlock done ∧
            ∃ e', m h = some e' ∧ value' = .diskIndex (ofIndex e') := by
        intro h value' hmem
        obtain ⟨hnot, hex⟩ := hrecords h value' (List.mem_cons_of_mem _ hmem)
        refine ⟨?_, hex⟩
        rintro (rfl | hh)
        · exact hnodup.1 (List.mem_map.mpr ⟨_, hmem, rfl⟩)
        · exact hnot hh
      obtain ⟨st', hrest, hinv'⟩ := ih (fun entry hmem => hbyte entry (List.mem_cons_of_mem _ hmem))
        hnodup.2 hordered.2 hrecords' (Set.insert_subset (mem_indexed he) hdone) hinv1
      refine ⟨st', ?_, ?_⟩
      · rw [loadRecords_record, hload, exceptOk_bind, hrest]
      · rw [recordHashes_record, Set.union_insert, ← Set.insert_union]
        exact hinv'
    · exact hstop (by decide) (by decide)
    · exact hstop (by decide) (by decide)

/-! ### The chain trust -/

/-- An entry with the chain trust calculated if its block has had its turn. -/
def CBlockIndex.withTrust (done : List Uint256) (e : CBlockIndex) : CBlockIndex :=
  { e with nChainTrust := if e.hashBlock ∈ done then e.nChainTrust else 0, nSequenceId := 0 }

theorem lePair_trans (address : Uint256 → Nat) (a b c : Nat × Uint256)
    (hab : lePair address a b = true) (hbc : lePair address b c = true) :
    lePair address a c = true := by
  simp only [lePair, Bool.or_eq_true, Bool.and_eq_true, decide_eq_true_eq] at *
  omega

theorem lePair_total (address : Uint256 → Nat) (a b : Nat × Uint256) :
    (lePair address a b || lePair address b a) = true := by
  simp only [lePair, Bool.or_eq_true, Bool.and_eq_true, decide_eq_true_eq]
  omega

/-- `vSortedByHeight` has all blocks, in the order of their heights. -/
theorem sortedByHeight_spec (loaded : StdMap Uint256 CBlockIndex) (lctx : LoadCtx) :
    (∀ item : Nat × Uint256, item ∈ sortedByHeight lctx loaded ↔
      ∃ e, loaded.lookup item.2 = some e ∧ e.nHeight = item.1) ∧
    (sortedByHeight lctx loaded).Pairwise fun a b => a.1 ≤ b.1 := by
  refine ⟨fun item => ?_, ?_⟩
  · rw [sortedByHeight, List.mem_mergeSort, List.mem_map]
    constructor
    · rintro ⟨⟨h, e⟩, hmem, rfl⟩
      exact ⟨e, AList.mem_lookup_iff.mpr hmem, rfl⟩
    · rintro ⟨e, he, hheight⟩
      exact ⟨⟨item.2, e⟩, AList.mem_lookup_iff.mp he, Prod.ext hheight rfl⟩
  · have hsorted := List.pairwise_mergeSort (lePair_trans lctx.address) (lePair_total lctx.address)
      (loaded.entries.map fun item => (item.2.nHeight, item.1))
    refine hsorted.imp fun {a b} hab => ?_
    simp only [lePair, Bool.or_eq_true, Bool.and_eq_true, decide_eq_true_eq] at hab
    omega

/-- The turn of a block whose parent has had its turn. -/
theorem setChainTrust_spec (hm : Loadable env m) {done : List Uint256}
    (hloaded : ∀ h, loaded.lookup h = (m h).map (CBlockIndex.withTrust done)) {n : Nat}
    (he : m e.hashBlock = some e) (hprev : ∀ p, e.pprev = some p → p ∈ done) (h : Uint256) :
    (setChainTrust env loaded (n, e.hashBlock)).lookup h
      = (m h).map (CBlockIndex.withTrust (done ++ [e.hashBlock])) := by
  have hlookup : loaded.lookup e.hashBlock = some (e.withTrust done) := by
    rw [hloaded, he, Option.map_some]
  -- the trust that is calculated is the one the entry was created with
  have htrust : prevChainTrust loaded (e.withTrust done) + env.getBlockTrust e.nBits
      = e.nChainTrust := by
    have hok := (hm.entryOk he).trust
    have hpprev : (e.withTrust done).pprev = e.pprev := rfl
    cases hp : e.pprev with
    | none =>
      rw [hp] at hok
      simp only [prevChainTrust, hpprev, hp, Option.bind_none]
      exact hok.symm
    | some p =>
      obtain ⟨ep, hep⟩ := exists_of_mem_indexed (hm.pprev he p hp).2
      have hdone : ep.hashBlock ∈ done := by
        rw [hm.hash hep]
        exact hprev p hp
      rw [hp, Option.bind_some, hep, Option.elim_some] at hok
      simp only [prevChainTrust, hp, Option.bind_some, hloaded, hep, Option.map_some,
        CBlockIndex.withTrust, if_pos hdone]
      exact hok.symm
  have hset : setChainTrust env loaded (n, e.hashBlock)
      = loaded.insert e.hashBlock { e.withTrust done with nChainTrust := e.nChainTrust } := by
    simp only [setChainTrust, hlookup, ← htrust]
    rfl
  rw [hset]
  by_cases hh : h = e.hashBlock
  · rw [hh, AList.lookup_insert, he, Option.map_some]
    simp [CBlockIndex.withTrust]
  · rw [AList.lookup_insert_ne hh, hloaded]
    cases hk : m h with
    | none => rfl
    | some e' =>
      have hne : e'.hashBlock ≠ e.hashBlock := by
        rw [hm.hash hk]
        exact hh
      simp [CBlockIndex.withTrust, hne]

/-- **In the order of the heights, every block gets its chain trust.** -/
theorem chainTrust_spec (ht : IndexTree m genesis) (hm : Loadable env m) (lctx : LoadCtx)
    (hloaded : ∀ h, loaded.lookup h = (m h).map CBlockIndex.reread) (h : Uint256) :
    ((sortedByHeight lctx loaded).foldl (setChainTrust env) loaded).lookup h
      = (m h).map fun e => { e with nSequenceId := 0 } := by
  obtain ⟨hmem, hsorted⟩ := sortedByHeight_spec loaded lctx
  have hlist : ∀ {n k}, (n, k) ∈ sortedByHeight lctx loaded ↔ ∃ e, m k = some e ∧ e.nHeight = n := by
    intro n k
    rw [hmem (n, k)]
    simp only [hloaded, Option.map_eq_some_iff]
    constructor
    · rintro ⟨_, ⟨e, he, rfl⟩, rfl⟩
      exact ⟨e, he, rfl⟩
    · rintro ⟨e, he, rfl⟩
      exact ⟨_, ⟨e, he, rfl⟩, rfl⟩
  -- the invariant of the loop: the blocks that have had their turn have their trust
  let I (done : List (Nat × Uint256)) (loaded' : StdMap Uint256 CBlockIndex) : Prop :=
    ∀ h, loaded'.lookup h = (m h).map (CBlockIndex.withTrust (done.map Prod.snd))
  have hinit : I [] loaded := hloaded
  have hstep : ∀ done item rest loaded', sortedByHeight lctx loaded = done ++ item :: rest →
      I done loaded' → I (done ++ [item]) (setChainTrust env loaded' item) := by
    rintro done ⟨n, k⟩ rest loaded' hxs hI
    obtain ⟨e, he, hheight⟩ := hlist.mp (by rw [hxs]; exact List.mem_append_right _ List.mem_cons_self)
    obtain rfl := ht.hash he
    intro h
    rw [List.map_append]
    refine setChainTrust_spec hm hI he (fun p hp => ?_) h
    -- the parent is lower, so it comes before
    have hne : e.hashBlock ≠ genesis := ht.ne_genesis ((parentOf_eq he).trans hp)
    obtain ⟨p', ep, hp', hep, hlt⟩ := ht.prev he hne
    obtain rfl := Option.some.inj (hp.symm.trans hp')
    have hmemp : (ep.nHeight, p) ∈ sortedByHeight lctx loaded := hlist.mpr ⟨ep, hep, rfl⟩
    rw [hxs] at hmemp hsorted
    rw [List.pairwise_append, List.pairwise_cons] at hsorted
    rcases List.mem_append.mp hmemp with hdone | hlater
    · exact List.mem_map.mpr ⟨_, hdone, rfl⟩
    · exfalso
      rcases List.mem_cons.mp hlater with heq | hrest
      · have heq' := (Prod.mk.inj heq).1
        omega
      · have hle := hsorted.2.1.1 _ hrest
        simp only at hle
        omega
  have hall : I (sortedByHeight lctx loaded)
      ((sortedByHeight lctx loaded).foldl (setChainTrust env) loaded) := Loop.foldl_inv I hinit hstep
  rw [hall h]
  cases he : m h with
  | none => rfl
  | some e =>
    have hdone : e.hashBlock ∈ (sortedByHeight lctx loaded).map Prod.snd := by
      rw [ht.hash he]
      exact List.mem_map.mpr ⟨(e.nHeight, h), hlist.mpr ⟨e, he, rfl⟩, rfl⟩
    rw [Option.map_some, Option.map_some, CBlockIndex.withTrust, if_pos hdone]

/-! ### The whole of `LoadBlockIndex` -/

section

variable (h : Recorded env genesis node tip)

include h

/-- The zero hash stands for no block, so it must not be the hash of one. -/
theorem Recorded.loadable (hnull : node.mapBlockIndex 0 = none) :
    Loadable env node.mapBlockIndex := by
  have ht := h.best.chainTip.tree
  have hnonzero : ∀ {k e}, node.mapBlockIndex k = some e → k ≠ 0 := by
    rintro k e he rfl
    rw [hnull] at he
    cases he
  have hptr : ∀ {k}, k ∈ indexed node.mapBlockIndex → k ≠ 0 ∧ k ∈ indexed node.mapBlockIndex := by
    intro k hk
    obtain ⟨e, he⟩ := exists_of_mem_indexed hk
    exact ⟨hnonzero he, hk⟩
  refine ⟨ht.hash, fun he => h.entryOk _ _ he, hnonzero, fun he p hp => ?_, fun he n hn => ?_⟩
  · refine hptr (ht.graded.parent_mem (mem_indexed he) ?_)
    rw [parentOf_eq he, hp]
  · rw [← nextOf_eq he] at hn
    obtain ⟨hparent, -⟩ := (h.best.chainTip.follows _ n).mp hn
    obtain ⟨e', he', -⟩ := Option.bind_eq_some_iff.mp hparent
    exact hptr (mem_indexed he')

theorem Recorded.pdb_blockindex (k : Uint256) :
    node.txdb.pdb (.blockindex k)
      = (node.mapBlockIndex k).map fun e => .diskIndex (ofIndex e) := by
  have hview := h.persisted k
  rw [CTxDB.view, h.best.chainTip.batch] at hview
  exact hview

/-- The entries that the loop over the records leaves. -/
theorem Recorded.loadRecords
    (hnull : node.mapBlockIndex 0 = none) (lctx : LoadCtx) {entries : List (DbKey × DbVal)}
    (hentries : node.txdb.Iterates (.blockindex 0) entries) :
    ∃ st, loadRecords env lctx entries {} = .ok st ∧
      ∀ k, st.mapBlockIndex.lookup k = (node.mapBlockIndex k).map CBlockIndex.reread := by
  have hbyte : ∀ entry ∈ entries, (DbKey.blockindex 0).firstByte ≤ entry.1.firstByte :=
    fun entry hmem => ((hentries.mem_iff entry.1 entry.2).mp hmem).2
  have hrecords : ∀ k value, (DbKey.blockindex k, value) ∈ entries → k ∉ (∅ : Set Uint256) ∧
      ∃ e, node.mapBlockIndex k = some e ∧ value = .diskIndex (ofIndex e) := by
    intro k value hmem
    have hpdb := ((hentries.mem_iff _ _).mp hmem).1
    rw [h.pdb_blockindex, Option.map_eq_some_iff] at hpdb
    obtain ⟨e, he, hvalue⟩ := hpdb
    exact ⟨Set.notMem_empty k, e, he, hvalue.symm⟩
  have hempty : LoadInv node.mapBlockIndex ∅ ({} : LoadedIndex).mapBlockIndex :=
    ⟨fun k hk => absurd hk (Set.notMem_empty k), fun k _ => .inl rfl⟩
  obtain ⟨st, hload, hinv⟩ := loadRecords_spec (h.loadable hnull) entries hbyte hentries.nodup
    hentries.ordered hrecords (Set.empty_subset _) hempty
  refine ⟨st, hload, fun k => ?_⟩
  -- every indexed block has had its record read, so no empty entry is left
  cases he : node.mapBlockIndex k with
  | some e =>
    have hpdb := h.pdb_blockindex k
    rw [he, Option.map_some] at hpdb
    rw [← he]
    exact hinv.done_eq k (.inr ⟨_, (hentries.mem_iff _ _).mpr ⟨hpdb, le_rfl⟩⟩)
  | none =>
    have hnot : k ∉ indexed node.mapBlockIndex := by
      intro hk
      obtain ⟨e, he'⟩ := exists_of_mem_indexed hk
      rw [he] at he'
      cases he'
    refine (hinv.rest_eq k ?_).resolve_right fun hk => hnot hk.2
    rintro (hk | ⟨value, hmem⟩)
    · exact Set.notMem_empty k hk
    · obtain ⟨e, he', -⟩ := (hrecords k value hmem).2
      exact hnot (mem_indexed he')

/-- **What is loaded**, if memory and records are the same. -/
theorem loadBlockIndex_spec
    (hnull : node.mapBlockIndex 0 = none) (lctx : LoadCtx) {entries : List (DbKey × DbVal)}
    (hentries : node.txdb.Iterates (.blockindex 0) entries) :
    ∃ loaded, loadBlockIndex env lctx node.txdb entries {} = .ok loaded ∧
      (∀ k, loaded.mapBlockIndex.lookup k
        = (node.mapBlockIndex k).map fun e => { e with nSequenceId := 0 }) ∧
      loaded.pindexBest = node.pindexBest ∧ loaded.hashBestChain = node.hashBestChain ∧
      loaded.nBestHeight = node.nBestHeight ∧ loaded.nBestChainTrust = node.nBestChainTrust := by
  obtain ⟨st, hload, hlookup⟩ := h.loadRecords hnull lctx hentries
  have htrust := chainTrust_spec h.best.chainTip.tree (h.loadable hnull) lctx hlookup
  obtain ⟨e, he⟩ := exists_of_mem_indexed h.best.chainTip.mem
  have hbest := htrust tip
  rw [he, Option.map_some] at hbest
  have hfresh : ¬ 0 < ({} : LoadedIndex).mapBlockIndex.entries.length := Nat.lt_irrefl 0
  simp only [loadBlockIndex, if_neg hfresh, hload, exceptOk_bind, h.best.chainTip.stored, hbest]
  refine ⟨_, rfl, htrust, h.best.best.symm, h.best.hash.symm, ?_, (h.trust e he).symm⟩
  rw [h.best.height, heightOf_eq he]

theorem Recorded.exists_iterates :
    ∃ entries, node.txdb.Iterates (.blockindex 0) entries := by
  set P : Set (DbKey × DbVal) := {entry | node.txdb.pdb entry.1 = some entry.2 ∧
    (DbKey.blockindex 0).firstByte ≤ entry.1.firstByte} with hP
  -- from the records on, the database holds one pair for each block and at most two more
  have hfinite : P.Finite := by
    have hkeys : (Set.image DbKey.blockindex (indexed node.mapBlockIndex) ∪
        {.hashBestChain, .bnBestInvalidTrust}).Finite :=
      (h.finite.image _).union (Set.toFinite _)
    refine (hkeys.image fun key => (key, (node.txdb.pdb key).getD (.hash 0))).subset ?_
    rintro ⟨key, value⟩ ⟨hpdb, hbyte⟩
    simp only at hpdb hbyte
    refine ⟨key, ?_, by simp only [hpdb, Option.getD_some]⟩
    rcases kind_of_firstByte hbyte with ⟨hash, rfl⟩ | rfl | rfl
    · rw [h.pdb_blockindex, Option.map_eq_some_iff] at hpdb
      obtain ⟨e, he, -⟩ := hpdb
      exact .inl ⟨hash, mem_indexed he, rfl⟩
    · exact .inr (.inl rfl)
    · exact .inr (.inr rfl)
  set le : DbKey × DbVal → DbKey × DbVal → Bool := fun a b => a.1.firstByte ≤ b.1.firstByte
  have hperm := List.mergeSort_perm hfinite.toFinset.toList le
  have hmem : ∀ entry, entry ∈ hfinite.toFinset.toList.mergeSort le ↔ entry ∈ P := by
    intro entry
    rw [List.mem_mergeSort, Finset.mem_toList, Set.Finite.mem_toFinset]
  refine ⟨hfinite.toFinset.toList.mergeSort le, fun key value => hmem (key, value), ?_, ?_⟩
  · refine List.Nodup.map_on (fun a ha b hb hab => Prod.ext hab ?_)
      (hperm.nodup_iff.mpr hfinite.toFinset.nodup_toList)
    have hpdb := ((hmem a).mp ha).1
    rw [hab, ((hmem b).mp hb).1] at hpdb
    exact (Option.some.inj hpdb).symm
  · refine (List.pairwise_mergeSort (fun a b c hab hbc => ?_) (fun a b => ?_) _).imp
      fun {a b} hab => of_decide_eq_true hab
    · exact decide_eq_true (le_trans (of_decide_eq_true hab) (of_decide_eq_true hbc))
    · simp only [Bool.or_eq_true, decide_eq_true_eq]
      exact le_total _ _

end

/-- **A reload rebuilds the block index** in memory after every run in which each `ConnectBlock`
succeeds: the same blocks with the same pointers, heights, flags, amounts, stake modifiers, proofs and
chain trust, and the same best block.  Only the order of arrival, which is kept in memory only, is
lost.  A block with the zero hash could not be told from no block. -/
theorem indexRun_reload {start : Node} {a : Arrival} (hgenesis : a.IsGenesis env start)
    (hrun : ReflTransGen (IndexStep env fun node a => a.connects env node = true) (a.add env start)
      node) (hnull : node.mapBlockIndex 0 = none) (lctx : LoadCtx) :
    (∃ entries, node.txdb.Iterates (.blockindex 0) entries) ∧
    ∀ entries, node.txdb.Iterates (.blockindex 0) entries →
      ∃ loaded, loadBlockIndex env lctx node.txdb entries {} = .ok loaded ∧
        (∀ k, loaded.mapBlockIndex.lookup k
          = (node.mapBlockIndex k).map fun e => { e with nSequenceId := 0 }) ∧
        loaded.pindexBest = node.pindexBest ∧ loaded.hashBestChain = node.hashBestChain ∧
        loaded.nBestHeight = node.nBestHeight ∧ loaded.nBestChainTrust = node.nBestChainTrust := by
  obtain ⟨tip, hrecorded⟩ := indexRun_recorded hgenesis hrun
  exact ⟨hrecorded.exists_iterates,
    fun entries hentries => loadBlockIndex_spec hrecorded hnull lctx hentries⟩

/-! ### A sample run -/

/-- The genesis block, with hash 105. -/
def genesisBlock : CBlock := rewardBlock 0 5 (rewardTx 5 0x51 0)

def bootEnv : Env := { branchEnv with hashGenesisBlock := 105 }

def emptyNode : Node :=
  { sampleNode [] with
    pindexGenesisBlock := none
    pindexBest := none
    hashBestChain := 0
    nBestHeight := -1
    txdb := ⟨fun _ => none, none⟩ }

theorem isGenesis_genesisBlock : (arrival 60 0 genesisBlock).IsGenesis bootEnv emptyNode :=
  ⟨fun _ => rfl, rfl, rfl, rfl, fun _ => rfl, rfl, rfl, by decide, rfl⟩

def bootArrivals : List Arrival :=
  ((tipBlock :: branchBlocks).zipIdx.map fun (block, i) => arrival 60 (i + 1) block).take 3

def bootNode (n : Nat) : Node :=
  (bootArrivals.take n).foldl (fun node a => a.add bootEnv node)
    ((arrival 60 0 genesisBlock).add bootEnv emptyNode)

theorem bootStep (n : Nat) {a : Arrival} (ha : bootArrivals[n]? = some a)
    (hvalid : a.Valid bootEnv (bootNode n)) (hconnects : a.connects bootEnv (bootNode n) = true) :
    IndexStep bootEnv (fun node a => a.connects bootEnv node = true) (bootNode n)
      (bootNode (n + 1)) := by
  refine ⟨a, hvalid, hconnects, ?_⟩
  rw [bootNode, List.take_add_one, ha, List.foldl_append]
  rfl

/-- The node switched branches, and is reloaded. -/
theorem indexRun_reload_switched : (bootNode 3).hashBestChain = 180 ∧
    ∃ entries loaded, (bootNode 3).txdb.Iterates (.blockindex 0) entries ∧
      loadBlockIndex bootEnv ⟨true, fun _ => 100000, id⟩ (bootNode 3).txdb entries {} = .ok loaded ∧
      loaded.hashBestChain = 180 ∧ loaded.nBestHeight = 2 ∧
      ((loaded.mapBlockIndex.lookup 105).bind CBlockIndex.pnext) = some 190 := by
  have hnull : (bootNode 3).mapBlockIndex 0 = none := by decide
  have hrun : ReflTransGen (IndexStep bootEnv fun node a => a.connects bootEnv node = true)
      ((arrival 60 0 genesisBlock).add bootEnv emptyNode) (bootNode 3) := by
    refine ((ReflTransGen.single (bootStep 0 rfl ⟨?_, ?_⟩ ?_)).tail
      (bootStep 1 rfl ⟨?_, ?_⟩ ?_)).tail (bootStep 2 rfl ⟨?_, ?_⟩ ?_) <;> decide
  obtain ⟨⟨entries, hentries⟩, hload⟩ := indexRun_reload isGenesis_genesisBlock hrun hnull
    ⟨true, fun _ => 100000, id⟩
  obtain ⟨loaded, hloaded, hlookup, -, hhash, hheight, -⟩ := hload entries hentries
  have hbest : (bootNode 3).hashBestChain = 180 := by decide
  have hnBestHeight : (bootNode 3).nBestHeight = 2 := by decide
  have hnext : ((bootNode 3).mapBlockIndex 105).bind CBlockIndex.pnext = some 190 := by
    decide
  refine ⟨hbest, entries, loaded, hentries, hloaded, hhash.trans hbest, hheight.trans hnBestHeight, ?_⟩
  obtain ⟨e, he, hpnext⟩ := Option.bind_eq_some_iff.mp hnext
  rw [hlookup, he]
  exact hpnext

end Sphinx
