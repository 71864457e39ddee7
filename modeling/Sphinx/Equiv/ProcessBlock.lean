import Sphinx.ProcessBlock
import Sphinx.Equiv.PaymentVotes

/-!
# Orphan blocks

The two maps of orphans hold the same blocks (`OrphansAgree`).  Everything that `ProcessBlock` does to
them is to remove some of the orphans and perhaps to add the block at hand (`processBlock_cases`), and
`Removed` says what is left: the maps still agree, and a pair stays in `setStakeSeenOrphan` if no
orphan with that stake has been removed.

The work queue carries the orphans whose parent has just been indexed: in `Pending` every held orphan
with an indexed parent has it in the queue, so none is left when the queue is empty.
-/

namespace Sphinx

open Relation Follow MapLoop

variable {env : Env} {s s' s'' : BlockNode} {gone gone' : COrphanBlock → Prop}
variable {o : COrphanBlock} {fuel : Nat} {block : CBlock} {hashPrev : Uint256} {r : ProcessResult}

/-! ### The two maps -/

/-- The orphan is held. -/
def Held (s : BlockNode) (orphan : COrphanBlock) : Prop :=
  (orphan.hashPrev, orphan) ∈ s.mapOrphanBlocksByPrev

/-- Both maps hold the same orphans, each once, under their hash and under the hash of their parent. -/
structure OrphansAgree (env : Env) (s : BlockNode) : Prop where
  keyed : ∀ {e}, e ∈ s.mapOrphanBlocksByPrev → e.1 = e.2.hashPrev
  nodup : (s.mapOrphanBlocksByPrev.map fun e => e.2.hashBlock).Nodup
  same : ∀ {h orphan}, s.mapOrphanBlocks.lookup h = some orphan ↔
    orphan.hashBlock = h ∧ Held s orphan
  fields : ∀ {orphan}, Held s orphan → orphan = .ofBlock env orphan.block

namespace OrphansAgree

theorem held_of_mem (h : OrphansAgree env s) {e : Uint256 × COrphanBlock}
    (he : e ∈ s.mapOrphanBlocksByPrev) : Held s e.2 := by
  unfold Held
  rw [← h.keyed he]
  exact he

theorem eq_of_hashBlock (h : OrphansAgree env s) {o' : COrphanBlock} (ho : Held s o) (ho' : Held s o')
    (heq : o.hashBlock = o'.hashBlock) : o = o' := by
  have hlookup := h.same.mpr ⟨heq, ho⟩
  rw [h.same.mpr ⟨rfl, ho'⟩] at hlookup
  exact (Option.some.inj hlookup).symm

end OrphansAgree

/-! ### Removing orphans -/

/-- `s'` holds the orphans of `s` but those that are gone. -/
structure Removed (gone : COrphanBlock → Prop) (s s' : BlockNode) : Prop where
  sublist : s'.mapOrphanBlocksByPrev.Sublist s.mapOrphanBlocksByPrev
  held : ∀ {o}, Held s' o ↔ Held s o ∧ ¬ gone o
  lookup : ∀ {h o}, s'.mapOrphanBlocks.lookup h = some o ↔
    s.mapOrphanBlocks.lookup h = some o ∧ ¬ gone o
  stakes : ∀ {p}, p ∈ s'.setStakeSeenOrphan ↔
    p ∈ s.setStakeSeenOrphan ∧ ∀ o, Held s o → gone o → o.stake ≠ p

namespace Removed

theorem refl (hnode : s'.mapOrphanBlocks = s.mapOrphanBlocks)
    (hprev : s'.mapOrphanBlocksByPrev = s.mapOrphanBlocksByPrev)
    (hstakes : s'.setStakeSeenOrphan = s.setStakeSeenOrphan) :
    Removed (fun _ => False) s s' := by
  refine ⟨by rw [hprev], ?_, ?_, ?_⟩
  · intro o
    simp [Held, hprev]
  · intro h o
    simp [hnode]
  · intro p
    simp [hstakes]

theorem trans (h : Removed gone s s') (h' : Removed gone' s' s'') :
    Removed (fun o => gone o ∨ gone' o) s s'' := by
  refine ⟨h'.sublist.trans h.sublist, ?_, ?_, ?_⟩
  · intro o
    rw [h'.held, h.held, not_or, and_assoc]
  · intro k o
    rw [h'.lookup, h.lookup, not_or, and_assoc]
  · intro p
    rw [h'.stakes, h.stakes, and_assoc]
    refine and_congr_right fun _ => ⟨?_, ?_⟩
    · rintro ⟨h1, h2⟩ o ho (hgone | hgone)
      · exact h1 o ho hgone
      · by_cases hg : gone o
        · exact h1 o ho hg
        · exact h2 o (h.held.mpr ⟨ho, hg⟩) hgone
    · intro h1
      exact ⟨fun o ho hg => h1 o ho (.inl hg), fun o ho hg => h1 o (h.held.mp ho).1 (.inr hg)⟩

theorem agree (h : Removed gone s s') (hs : OrphansAgree env s) : OrphansAgree env s' := by
  refine ⟨?_, ?_, ?_, ?_⟩
  · intro e he
    exact hs.keyed (h.sublist.subset he)
  · exact hs.nodup.sublist (h.sublist.map _)
  · intro k o
    rw [h.lookup, hs.same, h.held, and_assoc]
  · intro o ho
    exact hs.fields (h.held.mp ho).1

end Removed

theorem pruneOrphanBlocks_removed {nMaxOrphanBlocks : Int} {insecureRand : Nat}
    (hs : OrphansAgree env s) (h : pruneOrphanBlocks fuel nMaxOrphanBlocks insecureRand s = some s') :
    ∃ gone, Removed gone s s' ∧ s'.node = s.node := by
  unfold pruneOrphanBlocks at h
  split at h
  · obtain rfl := Option.some.inj h
    exact ⟨_, .refl rfl rfl rfl, rfl⟩
  · split at h
    · obtain rfl := Option.some.inj h
      exact ⟨_, .refl rfl rfl rfl, rfl⟩
    · next it hit =>
      obtain ⟨leaf, hleaf, h⟩ := Option.bind_eq_some_iff.mp h
      obtain rfl := Option.some.inj h
      -- the walk from one orphan to the next ends at one that is held
      have hmem : leaf ∈ s.mapOrphanBlocksByPrev :=
        (follow_inv (· ∈ s.mapOrphanBlocksByPrev) (fun _ hnext => List.mem_of_find?_eq_some hnext)
          (List.mem_of_getElem? hit) hleaf).1
      have hheld := hs.held_of_mem hmem
      refine ⟨fun o => o = leaf.2, ⟨List.erase_sublist, ?_, ?_, ?_⟩, rfl⟩
      · intro o
        have hpair : (o.hashPrev, o) = leaf ↔ o = leaf.2 := by
          constructor
          · intro heq
            rw [← heq]
          · rintro rfl
            rw [← hs.keyed hmem]
        show _ ∈ List.erase _ _ ↔ _
        rw [(List.Nodup.of_map _ hs.nodup).mem_erase_iff, and_comm, ne_eq, hpair]
        rfl
      · intro k o
        by_cases hk : k = leaf.2.hashBlock
        · subst hk
          rw [AList.lookup_erase, hs.same]
          constructor
          · intro hnone
            cases hnone
          · rintro ⟨⟨heq, ho⟩, hne⟩
            exact absurd (hs.eq_of_hashBlock ho hheld heq) hne
        · rw [AList.lookup_erase_ne hk]
          refine ⟨fun hlookup => ⟨hlookup, ?_⟩, fun h => h.1⟩
          rintro rfl
          exact hk (hs.same.mp hlookup).1.symm
      · intro p
        show p ∈ s.setStakeSeenOrphan.erase _ ↔ _
        rw [Finset.mem_erase, and_comm]
        refine and_congr_right fun _ => ⟨?_, ?_⟩
        · rintro hne o - rfl heq
          exact hne heq.symm
        · intro hall heq
          exact hall leaf.2 hheld rfl heq.symm

/-! ### Storing an orphan -/

theorem perm_insertByPrev (entry : Uint256 × COrphanBlock) (l : List (Uint256 × COrphanBlock)) :
    (insertByPrev entry l).Perm (entry :: l) := by
  induction l with
  | nil => exact List.Perm.refl _
  | cons e rest ih =>
    unfold insertByPrev
    split
    · exact List.Perm.refl _
    · exact (ih.cons e).trans (List.Perm.swap entry e rest)

theorem held_insertOrphan :
    Held (insertOrphan env block s) o ↔ o = .ofBlock env block ∨ Held s o := by
  show (o.hashPrev, o) ∈ insertByPrev _ _ ↔ _
  rw [(perm_insertByPrev _ _).mem_iff, List.mem_cons, Prod.mk.injEq]
  refine or_congr ⟨fun h => h.2, ?_⟩ Iff.rfl
  rintro rfl
  exact ⟨rfl, rfl⟩

theorem OrphansAgree.insertOrphan (hs : OrphansAgree env s)
    (hnew : s.mapOrphanBlocks.lookup (env.getBlockHash block) = none) :
    OrphansAgree env (Sphinx.insertOrphan env block s) := by
  have hfresh : ∀ o, Held s o → o.hashBlock ≠ env.getBlockHash block := by
    intro o ho heq
    rw [hs.same.mpr ⟨heq, ho⟩] at hnew
    cases hnew
  -- where the new pair goes among the others does not matter
  have hperm := perm_insertByPrev (block.hashPrevBlock, .ofBlock env block) s.mapOrphanBlocksByPrev
  refine ⟨?_, ?_, ?_, ?_⟩
  · intro e he
    rcases List.mem_cons.mp (hperm.mem_iff.mp he) with rfl | he
    · rfl
    · exact hs.keyed he
  · show (List.map _ (insertByPrev (block.hashPrevBlock, _) _)).Nodup
    rw [(hperm.map _).nodup_iff, List.map_cons, List.nodup_cons]
    refine ⟨?_, hs.nodup⟩
    intro hmem
    obtain ⟨e, he, heq⟩ := List.mem_map.mp hmem
    exact hfresh e.2 (hs.held_of_mem he) heq
  · intro k o
    rw [held_insertOrphan]
    show (s.mapOrphanBlocks.insert (env.getBlockHash block) (.ofBlock env block)).lookup k = _ ↔ _
    by_cases hk : k = env.getBlockHash block
    · subst hk
      rw [AList.lookup_insert]
      constructor
      · intro heq
        obtain rfl := Option.some.inj heq
        exact ⟨rfl, .inl rfl⟩
      · rintro ⟨heq, rfl | ho⟩
        · rfl
        · exact absurd heq (hfresh o ho)
    · rw [AList.lookup_insert_ne hk, hs.same]
      refine and_congr_right fun heq => ⟨.inr, ?_⟩
      rintro (rfl | ho)
      · exact absurd heq.symm hk
      · exact ho
  · intro o ho
    rcases held_insertOrphan.mp ho with rfl | ho
    · rfl
    · exact hs.fields ho

/-! ### The work queue -/

variable {a : IncomingBlock} {w w' : WorkState}

section

variable (env : Env) (a : IncomingBlock) (orphans : List COrphanBlock)

/-- The orphan maps after a round over `orphans`, whatever `AcceptBlock` says. -/
theorem foldl_processOrphan_maps :
    ∀ w : WorkState,
      (orphans.foldl (processOrphan env a) w).state.mapOrphanBlocksByPrev =
        w.state.mapOrphanBlocksByPrev ∧
      (∀ h, (orphans.foldl (processOrphan env a) w).state.mapOrphanBlocks.lookup h =
        if h ∈ orphans.map COrphanBlock.hashBlock then none else w.state.mapOrphanBlocks.lookup h) ∧
      ∀ p, p ∈ (orphans.foldl (processOrphan env a) w).state.setStakeSeenOrphan ↔
        p ∈ w.state.setStakeSeenOrphan ∧ ∀ o ∈ orphans, o.block.getProofOfStake ≠ p := by
  induction orphans with
  | nil =>
    intro w
    simp
  | cons orphan rest ih =>
    intro w
    obtain ⟨hprev, hlookup, hstakes⟩ := ih (processOrphan env a w orphan)
    refine ⟨hprev, ?_, ?_⟩
    · intro h
      rw [List.foldl_cons, hlookup]
      show (if _ then none else (w.state.mapOrphanBlocks.erase orphan.hashBlock).lookup h) = _
      by_cases hk : h = orphan.hashBlock
      · subst hk
        simp
      · simp [hk, AList.lookup_erase_ne hk]
    · intro p
      rw [List.foldl_cons, hstakes]
      show p ∈ w.state.setStakeSeenOrphan.erase _ ∧ _ ↔ _
      rw [Finset.mem_erase, List.forall_mem_cons, ne_comm]
      tauto

theorem prefix_foldl_processOrphan :
    ∀ w : WorkState, w.verdicts <+: (orphans.foldl (processOrphan env a) w).verdicts := by
  induction orphans with
  | nil =>
    intro w
    exact List.prefix_refl _
  | cons orphan rest ih =>
    intro w
    exact (List.prefix_append _ _).trans (ih (processOrphan env a w orphan))

theorem length_foldl_processOrphan :
    ∀ w : WorkState, (orphans.foldl (processOrphan env a) w).vWorkQueue.length ≤
      w.vWorkQueue.length + orphans.length := by
  induction orphans with
  | nil =>
    intro w
    simp
  | cons orphan rest ih =>
    intro w
    have hrest := ih (processOrphan env a w orphan)
    have hone : (processOrphan env a w orphan).vWorkQueue.length ≤ w.vWorkQueue.length + 1 := by
      unfold processOrphan
      dsimp only
      split <;> simp
    rw [List.foldl_cons, List.length_cons]
    omega

end

/-- `AcceptBlock` adds the block to the index. -/
theorem acceptBlock_ok {actx : AcceptCtx} {node node' : Node} (hkey : HashKeyed node.mapBlockIndex)
    (h : acceptBlock env actx node block = .ok node') :
    HashKeyed node'.mapBlockIndex ∧
    ∀ h, (node'.mapBlockIndex h).isSome ↔
      (node.mapBlockIndex h).isSome ∨ h = env.getBlockHash block := by
  unfold acceptBlock at h
  split at h
  · cases h
  · split at h
    · cases h
    · split at h
      · cases h
      · next nFile nBlockPos _ =>
        cases hadd : addToBlockIndex env actx.connectCtx node block nFile nBlockPos _ with
        | error e =>
          rw [hadd] at h
          cases h
        | ok node1 =>
          rw [hadd] at h
          obtain rfl := Except.ok.inj h
          exact indexed_addToBlockIndex hkey hadd

/-- A round in which every orphan is accepted. -/
theorem foldl_processOrphan_accepted (env : Env) (a : IncomingBlock) (orphans : List COrphanBlock) :
    ∀ w : WorkState, HashKeyed w.state.node.mapBlockIndex →
      (∀ o ∈ orphans, o.hashBlock = env.getBlockHash o.block) →
      (∀ v ∈ (orphans.foldl (processOrphan env a) w).verdicts, v = true) →
      HashKeyed (orphans.foldl (processOrphan env a) w).state.node.mapBlockIndex ∧
      (∀ h, ((orphans.foldl (processOrphan env a) w).state.node.mapBlockIndex h).isSome ↔
        (w.state.node.mapBlockIndex h).isSome ∨ h ∈ orphans.map COrphanBlock.hashBlock) ∧
      (orphans.foldl (processOrphan env a) w).vWorkQueue =
        w.vWorkQueue ++ orphans.map COrphanBlock.hashBlock := by
  induction orphans with
  | nil =>
    intro w hkey _ _
    exact ⟨hkey, by simp, by simp⟩
  | cons orphan rest ih =>
    intro w hkey hfields hall
    rw [List.foldl_cons] at hall ⊢
    -- the verdict on the first orphan is among those of the round
    have hverdict : (acceptBlock env (a.acceptCtx orphan.hashBlock) w.state.node
        orphan.block).isOk = true :=
      hall _ ((prefix_foldl_processOrphan env a rest _).subset (by simp [processOrphan]))
    obtain ⟨node', hok⟩ := exists_of_isOk hverdict
    obtain ⟨hkey', hindexed⟩ := acceptBlock_ok hkey hok
    have hnode : (processOrphan env a w orphan).state.node = node' := by
      simp only [processOrphan, hok]
      rfl
    have hqueue : (processOrphan env a w orphan).vWorkQueue =
        w.vWorkQueue ++ [orphan.hashBlock] := by
      simp [processOrphan, hverdict]
    obtain ⟨hkey'', hindexed', hqueue'⟩ := ih (processOrphan env a w orphan)
      (by rw [hnode]; exact hkey') (fun o ho => hfields o (List.mem_cons_of_mem _ ho)) hall
    refine ⟨hkey'', ?_, ?_⟩
    · intro h
      rw [hindexed', hnode, hindexed, List.map_cons, List.mem_cons, or_assoc,
        hfields orphan List.mem_cons_self]
    · rw [hqueue', hqueue, List.map_cons, List.append_assoc]
      rfl

/-- One round of the queue, on the orphans of `hashPrev`. -/
def workRound (env : Env) (a : IncomingBlock) (w : WorkState) (hashPrev : Uint256)
    (rest : List Uint256) : WorkState :=
  let w := (orphansByPrev w.state hashPrev).foldl (processOrphan env a) { w with vWorkQueue := rest }
  { w with state := { w.state with
      mapOrphanBlocksByPrev := w.state.mapOrphanBlocksByPrev.filter fun e => e.1 ≠ hashPrev } }

theorem processWorkQueue_cons {rest : List Uint256} (hq : w.vWorkQueue = hashPrev :: rest) :
    processWorkQueue env a (fuel + 1) w =
      processWorkQueue env a fuel (workRound env a w hashPrev rest) := by
  conv_lhs => unfold processWorkQueue
  rw [hq]
  rfl

theorem processWorkQueue_nil (hq : w.vWorkQueue = []) :
    processWorkQueue env a (fuel + 1) w = some w := by
  unfold processWorkQueue
  rw [hq]

theorem mem_orphansByPrev (hs : OrphansAgree env s) :
    o ∈ orphansByPrev s hashPrev ↔ Held s o ∧ o.hashPrev = hashPrev := by
  unfold orphansByPrev
  rw [List.mem_map]
  constructor
  · rintro ⟨e, he, rfl⟩
    obtain ⟨he, hkey⟩ := List.mem_filter.mp he
    rw [← hs.keyed he]
    exact ⟨hs.held_of_mem he, by simpa using hkey⟩
  · rintro ⟨ho, rfl⟩
    exact ⟨(o.hashPrev, o), List.mem_filter.mpr ⟨ho, by simp⟩, rfl⟩

theorem removed_workRound (hs : OrphansAgree env w.state) (hashPrev : Uint256)
    (rest : List Uint256) :
    Removed (fun o => o.hashPrev = hashPrev) w.state (workRound env a w hashPrev rest).state := by
  obtain ⟨hprev, hlookup, hstakes⟩ := foldl_processOrphan_maps env a
    (orphansByPrev w.state hashPrev) { w with vWorkQueue := rest }
  have hround : (workRound env a w hashPrev rest).state.mapOrphanBlocksByPrev =
      w.state.mapOrphanBlocksByPrev.filter fun e => e.1 ≠ hashPrev := by
    show List.filter _ _ = _
    rw [hprev]
  refine ⟨?_, ?_, ?_, ?_⟩
  · rw [hround]
    exact List.filter_sublist
  · intro o
    rw [Held, hround, List.mem_filter]
    simp [Held]
  · intro k o
    have hround' : (workRound env a w hashPrev rest).state.mapOrphanBlocks.lookup k = _ := hlookup k
    rw [hround']
    split
    · next hmem =>
      obtain ⟨o', ho', rfl⟩ := List.mem_map.mp hmem
      obtain ⟨hheld', hprev'⟩ := (mem_orphansByPrev hs).mp ho'
      constructor
      · intro h
        cases h
      · rintro ⟨h, hne⟩
        obtain ⟨heq, hheld⟩ := hs.same.mp h
        rw [hs.eq_of_hashBlock hheld hheld' heq] at hne
        exact absurd hprev' hne
    · next hmem =>
      refine ⟨fun h => ⟨h, fun heq => hmem ?_⟩, fun h => h.1⟩
      obtain ⟨rfl, hheld⟩ := hs.same.mp h
      exact List.mem_map_of_mem ((mem_orphansByPrev hs).mpr ⟨hheld, heq⟩)
  · intro p
    refine (hstakes p).trans ?_
    refine and_congr_right fun _ => forall_congr' fun o => ?_
    rw [mem_orphansByPrev hs, and_imp]
    refine forall_congr' fun ho => forall_congr' fun _ => ?_
    -- the stake of an orphan is the one of its block
    have hstake : o.block.getProofOfStake = o.stake := (congrArg COrphanBlock.stake (hs.fields ho)).symm
    rw [hstake]

theorem processWorkQueue_removed :
    ∀ {w : WorkState}, OrphansAgree env w.state → processWorkQueue env a fuel w = some w' →
      ∃ gone, Removed gone w.state w'.state := by
  induction fuel with
  | zero =>
    intro w _ h
    cases h
  | succ fuel ih =>
    intro w hs h
    cases hq : w.vWorkQueue with
    | nil =>
      rw [processWorkQueue_nil hq, Option.some.injEq] at h
      subst h
      exact ⟨_, .refl rfl rfl rfl⟩
    | cons hashPrev rest =>
      rw [processWorkQueue_cons hq] at h
      have hround := removed_workRound (a := a) hs hashPrev rest
      obtain ⟨gone, hrest⟩ := ih (hround.agree hs) h
      exact ⟨_, hround.trans hrest⟩

/-- Every round takes one hash out of the queue and moves orphans from the maps to the queue. -/
theorem exists_processWorkQueue (env : Env) (a : IncomingBlock) :
    ∀ {w : WorkState}, w.vWorkQueue.length + w.state.mapOrphanBlocksByPrev.length < fuel →
      ∃ w', processWorkQueue env a fuel w = some w' := by
  induction fuel with
  | zero =>
    intro w hlt
    omega
  | succ fuel ih =>
    intro w hlt
    cases hq : w.vWorkQueue with
    | nil => exact ⟨w, processWorkQueue_nil hq⟩
    | cons hashPrev rest =>
      rw [processWorkQueue_cons hq]
      apply ih
      have hlen := length_foldl_processOrphan env a
        (orphansByPrev w.state hashPrev) { w with vWorkQueue := rest }
      have hprev := (foldl_processOrphan_maps env a
        (orphansByPrev w.state hashPrev) { w with vWorkQueue := rest }).1
      have hsplit := List.length_eq_length_filter_add (l := w.state.mapOrphanBlocksByPrev)
        (fun e => decide (e.1 = hashPrev))
      have hkept : (workRound env a w hashPrev rest).state.mapOrphanBlocksByPrev.length =
          (w.state.mapOrphanBlocksByPrev.filter fun e => !decide (e.1 = hashPrev)).length := by
        show (List.filter _ _).length = _
        rw [hprev]
        simp
      have hpushed : (orphansByPrev w.state hashPrev).length =
          (w.state.mapOrphanBlocksByPrev.filter fun e => decide (e.1 = hashPrev)).length := by
        unfold orphansByPrev
        rw [List.length_map]
      rw [hkept]
      rw [hq, List.length_cons] at hlt
      have hqueue : (workRound env a w hashPrev rest).vWorkQueue.length ≤
          rest.length + (orphansByPrev w.state hashPrev).length := hlen
      omega

/-- The queue has the parents of the orphans that can be accepted. -/
def Pending (w : WorkState) : Prop :=
  ∀ {o}, Held w.state o → (w.state.node.mapBlockIndex o.hashPrev).isSome → o.hashPrev ∈ w.vWorkQueue

theorem prefix_processWorkQueue :
    ∀ {w : WorkState}, processWorkQueue env a fuel w = some w' → w.verdicts <+: w'.verdicts := by
  induction fuel with
  | zero =>
    intro w h
    cases h
  | succ fuel ih =>
    intro w h
    cases hq : w.vWorkQueue with
    | nil =>
      rw [processWorkQueue_nil hq, Option.some.injEq] at h
      rw [h]
    | cons hashPrev rest =>
      rw [processWorkQueue_cons hq] at h
      have hround : w.verdicts <+: (workRound env a w hashPrev rest).verdicts :=
        prefix_foldl_processOrphan env a (orphansByPrev w.state hashPrev) { w with vWorkQueue := rest }
      exact hround.trans (ih h)

/-- **One round.**  When every orphan of it is accepted, these are indexed, and an orphan whose parent is
indexed waits for a hash that is still in the queue, or for one that the round has put there. -/
theorem workRound_accepted {rest : List Uint256} (hs : OrphansAgree env w.state)
    (hkey : HashKeyed w.state.node.mapBlockIndex) (hpending : Pending w)
    (hq : w.vWorkQueue = hashPrev :: rest)
    (hall : ∀ v ∈ (workRound env a w hashPrev rest).verdicts, v = true) :
    HashKeyed (workRound env a w hashPrev rest).state.node.mapBlockIndex ∧
    (∀ h, ((workRound env a w hashPrev rest).state.node.mapBlockIndex h).isSome ↔
      (w.state.node.mapBlockIndex h).isSome ∨
        h ∈ (orphansByPrev w.state hashPrev).map COrphanBlock.hashBlock) ∧
    Pending (workRound env a w hashPrev rest) := by
  obtain ⟨hkey', hindexed, hqueue⟩ := foldl_processOrphan_accepted env a
    (orphansByPrev w.state hashPrev) { w with vWorkQueue := rest } hkey
    (fun o ho => congrArg COrphanBlock.hashBlock (hs.fields ((mem_orphansByPrev hs).mp ho).1)) hall
  refine ⟨hkey', hindexed, ?_⟩
  intro o ho hparent
  obtain ⟨hheld, hne⟩ := (removed_workRound hs hashPrev rest).held.mp ho
  have hmem : o.hashPrev ∈ rest ++ (orphansByPrev w.state hashPrev).map COrphanBlock.hashBlock := by
    rw [List.mem_append]
    rcases (hindexed _).mp hparent with hparent | hparent
    · have hmem := hpending hheld hparent
      rw [hq] at hmem
      rcases List.mem_cons.mp hmem with heq | hmem
      · exact absurd heq hne
      · exact .inl hmem
    · exact .inr hparent
  rw [← hqueue] at hmem
  exact hmem

/-- **The whole queue.**  When every orphan is accepted, no orphan with an indexed parent is left, and
each one that was held before is held or indexed. -/
theorem processWorkQueue_accepted :
    ∀ {w : WorkState}, OrphansAgree env w.state → HashKeyed w.state.node.mapBlockIndex → Pending w →
      processWorkQueue env a fuel w = some w' → (∀ v ∈ w'.verdicts, v = true) →
      HashKeyed w'.state.node.mapBlockIndex ∧
      (∀ o, Held w'.state o → w'.state.node.mapBlockIndex o.hashPrev = none) ∧
      (∀ h, (w.state.node.mapBlockIndex h).isSome → (w'.state.node.mapBlockIndex h).isSome) ∧
      ∀ o, Held w.state o → Held w'.state o ∨
        (w'.state.node.mapBlockIndex o.hashBlock).isSome := by
  induction fuel with
  | zero =>
    intro w _ _ _ h _
    cases h
  | succ fuel ih =>
    intro w hs hkey hpending h hall
    cases hq : w.vWorkQueue with
    | nil =>
      -- the queue is empty, so nothing is pending
      rw [processWorkQueue_nil hq, Option.some.injEq] at h
      subst h
      refine ⟨hkey, ?_, fun _ => id, fun _ => .inl⟩
      intro o ho
      by_contra hne
      have hmem := hpending ho (Option.isSome_iff_ne_none.mpr hne)
      rw [hq] at hmem
      cases hmem
    | cons hashPrev rest =>
      rw [processWorkQueue_cons hq] at h
      have hremoved := removed_workRound (a := a) hs hashPrev rest
      have hround : ∀ v ∈ (workRound env a w hashPrev rest).verdicts, v = true :=
        fun v hv => hall v ((prefix_processWorkQueue h).subset hv)
      obtain ⟨hkey', hindexed, hpending'⟩ := workRound_accepted hs hkey hpending hq hround
      obtain ⟨hkey'', hnone, hmono, hheld⟩ := ih (hremoved.agree hs) hkey' hpending' h hall
      refine ⟨hkey'', hnone, fun k hk => hmono k ((hindexed k).mpr (.inl hk)), ?_⟩
      intro o ho
      by_cases heq : o.hashPrev = hashPrev
      · -- accepted in this round
        right
        apply hmono
        exact (hindexed _).mpr (.inr (List.mem_map_of_mem ((mem_orphansByPrev hs).mpr ⟨ho, heq⟩)))
      · exact hheld o (hremoved.held.mpr ⟨ho, heq⟩)

/-! ### One call -/

/-- The block is new, its signature is canonical, and `CheckBlock` finds nothing wrong with it. -/
def IsNewBlock (env : Env) (a : IncomingBlock) (s : BlockNode) : Prop :=
  s.node.mapBlockIndex (env.getBlockHash a.block) = none ∧
  s.mapOrphanBlocks.lookup (env.getBlockHash a.block) = none ∧
  isCanonicalBlockSignature a = true ∧
  checkBlock env a.ctx (s.node.pindexBest.bind s.node.mapBlockIndex) a.block true true true = .ok ()

/-- The block has been stored as an orphan, after other orphans have been removed. -/
structure StoredOrphan (env : Env) (a : IncomingBlock) (s s' : BlockNode) : Prop where
  parent : s.node.mapBlockIndex a.block.hashPrevBlock = none
  pfrom : a.pfrom = true
  duplicate : a.block.isProofOfStake = true → a.block.getProofOfStake ∈ s.setStakeSeenOrphan →
    hasOrphanChild s (env.getBlockHash a.block) = true
  removed : ∃ gone s₁, Removed gone s s₁ ∧ s₁.node = s.node ∧
    s₁.mapOrphanBlocks.lookup (env.getBlockHash a.block) = none ∧ s' = insertOrphan env a.block s₁

theorem storeOrphan_cases (hs : OrphansAgree env s)
    (hparent : s.node.mapBlockIndex a.block.hashPrevBlock = none)
    (hnew : s.mapOrphanBlocks.lookup (env.getBlockHash a.block) = none)
    (h : storeOrphan env fuel a s = some r) : r.state = s ∨ StoredOrphan env a s r.state := by
  unfold storeOrphan at h
  dsimp only at h
  split at h
  · obtain rfl := Option.some.inj h
    exact .inl rfl
  · next hpfrom =>
    split at h
    · obtain rfl := Option.some.inj h
      exact .inl rfl
    · next hdup =>
      obtain ⟨s₁, hprune, h⟩ := Option.bind_eq_some_iff.mp h
      obtain ⟨root, -, h⟩ := Option.bind_eq_some_iff.mp h
      obtain ⟨gone, hremoved, hnode⟩ := pruneOrphanBlocks_removed hs hprune
      have hstate : r.state = insertOrphan env a.block s₁ := by
        split at h
        · rw [← Option.some.inj h]
        · obtain ⟨wanted, -, h⟩ := Option.bind_eq_some_iff.mp h
          rw [← Option.some.inj h]
      refine .inr ⟨hparent, by simpa using hpfrom, ?_, gone, s₁, hremoved, hnode, ?_, hstate⟩
      · intro hpos hseen
        simpa [hpos, hseen] using hdup
      · cases hl : s₁.mapOrphanBlocks.lookup (env.getBlockHash a.block) with
        | none => rfl
        | some o =>
          rw [(hremoved.lookup.mp hl).1] at hnew
          cases hnew

/-- **What a call does to the orphans.**  It removes some of them, or stores the block. -/
theorem processBlock_cases (hs : OrphansAgree env s) (h : processBlock env fuel a s = some r) :
    (∃ gone, Removed gone s r.state) ∨ (IsNewBlock env a s ∧ StoredOrphan env a s r.state) := by
  unfold processBlock at h
  dsimp only at h
  -- the checks before the orphans are touched, in the order of the source
  split at h
  · obtain rfl := Option.some.inj h
    exact .inl ⟨_, .refl rfl rfl rfl⟩
  next hknown =>
  split at h
  · obtain rfl := Option.some.inj h
    exact .inl ⟨_, .refl rfl rfl rfl⟩
  next hnew =>
  split at h
  · obtain rfl := Option.some.inj h
    exact .inl ⟨_, .refl rfl rfl rfl⟩
  split at h
  · obtain rfl := Option.some.inj h
    exact .inl ⟨_, .refl rfl rfl rfl⟩
  next hcanonical =>
  split at h
  · obtain rfl := Option.some.inj h
    exact .inl ⟨_, .refl rfl rfl rfl⟩
  next hcheck =>
  split at h
  · -- the parent is not known
    next hparent =>
    have hchecked : IsNewBlock env a s :=
      ⟨by simpa using hknown, by simpa using hnew, by simpa using hcanonical, hcheck⟩
    rcases storeOrphan_cases hs (by simpa using hparent) hchecked.2.1 h with heq | hstored
    · rw [heq]
      exact .inl ⟨_, .refl rfl rfl rfl⟩
    · exact .inr ⟨hchecked, hstored⟩
  · -- the block is accepted, or not; then the orphans that wait for it get their turn
    split at h
    · obtain rfl := Option.some.inj h
      exact .inl ⟨_, .refl rfl rfl rfl⟩
    · next node _ =>
      obtain ⟨w, hw, h⟩ := Option.bind_eq_some_iff.mp h
      obtain rfl := Option.some.inj h
      have hs' : OrphansAgree env { s with node := node } := ⟨hs.keyed, hs.nodup, hs.same, hs.fields⟩
      obtain ⟨gone, hremoved⟩ := processWorkQueue_removed hs' hw
      exact .inl ⟨gone, hremoved.sublist, hremoved.held, hremoved.lookup, hremoved.stakes⟩

theorem OrphansAgree.processBlock (hs : OrphansAgree env s) (h : processBlock env fuel a s = some r) :
    OrphansAgree env r.state := by
  rcases processBlock_cases hs h with ⟨gone, hremoved⟩ | ⟨-, hstored⟩
  · exact hremoved.agree hs
  · obtain ⟨gone, s₁, hremoved, -, hnew, heq⟩ := hstored.removed
    rw [heq]
    exact (hremoved.agree hs).insertOrphan hnew

/-! ### The loops end -/

section Rank

variable {rank : Uint256 → Nat}

/-- Parents have a lower rank. -/
def Ranked (rank : Uint256 → Nat) (s : BlockNode) : Prop :=
  ∀ o, Held s o → rank o.hashPrev < rank o.hashBlock

theorem exists_getOrphanRoot (hs : OrphansAgree env s) (hrank : Ranked rank s) (hash : Uint256)
    (hfuel : rank hash < fuel) :
    ∃ root, getOrphanRoot fuel s.mapOrphanBlocks hash = some root := by
  unfold getOrphanRoot
  cases hl : s.mapOrphanBlocks.lookup hash with
  | none => exact ⟨hash, rfl⟩
  | some pblock =>
    obtain ⟨it, hit⟩ := exists_follow
      (fun it : Uint256 × COrphanBlock =>
        (s.mapOrphanBlocks.lookup it.2.hashPrev).map fun it2 => (it.2.hashPrev, it2))
      (fun it => s.mapOrphanBlocks.lookup it.1 = some it.2) (fun it => rank it.1)
      (by
        intro it it' hit hnext
        obtain ⟨it2, hit2, rfl⟩ := Option.map_eq_some_iff.mp hnext
        obtain ⟨heq, hheld⟩ := hs.same.mp hit
        refine ⟨hit2, ?_⟩
        rw [← heq]
        exact hrank _ hheld)
      (hash, pblock) hl hfuel
    dsimp only
    rw [hit]
    exact ⟨it.1, rfl⟩

theorem exists_wantedByOrphan (hs : OrphansAgree env s) (hrank : Ranked rank s)
    (pblockOrphan : COrphanBlock) (hfuel : rank pblockOrphan.hashPrev < fuel) :
    ∃ wanted, wantedByOrphan fuel s.mapOrphanBlocks pblockOrphan = some wanted := by
  obtain ⟨o, ho⟩ := exists_follow
    (fun pblock : COrphanBlock => s.mapOrphanBlocks.lookup pblock.hashPrev)
    (fun _ => True) (fun o => rank o.hashPrev)
    (by
      intro o o' _ hnext
      obtain ⟨heq, hheld⟩ := hs.same.mp hnext
      refine ⟨trivial, ?_⟩
      rw [← heq]
      exact hrank _ hheld)
    pblockOrphan trivial hfuel
  rw [wantedByOrphan, ho]
  exact ⟨o.hashPrev, rfl⟩

/-- A bound on the rank of every held orphan. -/
def rankBound (rank : Uint256 → Nat) (s : BlockNode) : Nat :=
  (s.mapOrphanBlocksByPrev.map fun e => rank e.2.hashBlock).sum

theorem exists_pruneOrphanBlocks (hs : OrphansAgree env s) (hrank : Ranked rank s)
    (nMaxOrphanBlocks : Int) (insecureRand : Nat) (hfuel : rankBound rank s < fuel) :
    ∃ s', pruneOrphanBlocks fuel nMaxOrphanBlocks insecureRand s = some s' := by
  unfold pruneOrphanBlocks
  split
  · exact ⟨s, rfl⟩
  · split
    · exact ⟨s, rfl⟩
    · next it hit =>
      have hle : ∀ e ∈ s.mapOrphanBlocksByPrev, rank e.2.hashBlock ≤ rankBound rank s :=
        fun e he => List.single_le_sum (fun _ _ => Nat.zero_le _) _ (List.mem_map_of_mem he)
      -- the rank goes up, towards the bound
      obtain ⟨leaf, hleaf⟩ := exists_follow
        (fun it : Uint256 × COrphanBlock =>
          s.mapOrphanBlocksByPrev.find? fun e => e.1 = it.2.hashBlock)
        (· ∈ s.mapOrphanBlocksByPrev) (fun it => rankBound rank s - rank it.2.hashBlock)
        (by
          intro it e hit hnext
          have he := List.mem_of_find?_eq_some hnext
          have hkey : e.1 = it.2.hashBlock := by simpa using List.find?_some hnext
          have hlt := hrank _ (hs.held_of_mem he)
          rw [← hs.keyed he, hkey] at hlt
          have := hle e he
          exact ⟨he, by omega⟩)
        it (List.mem_of_getElem? hit) (Nat.lt_of_le_of_lt (Nat.sub_le _ _) hfuel)
      rw [findLeafOrphan, hleaf]
      exact ⟨_, rfl⟩

/-- Enough fuel for a call of `ProcessBlock`. -/
def callFuel (env : Env) (rank : Uint256 → Nat) (a : IncomingBlock) (s : BlockNode) : Nat :=
  s.mapOrphanBlocksByPrev.length + rankBound rank s + rank (env.getBlockHash a.block) + 2

theorem Ranked.of_removed (hrank : Ranked rank s) (h : Removed gone s s') : Ranked rank s' := by
  intro o ho
  exact hrank o (h.held.mp ho).1

theorem Ranked.insertOrphan (hrank : Ranked rank s)
    (hblock : rank block.hashPrevBlock < rank (env.getBlockHash block)) :
    Ranked rank (Sphinx.insertOrphan env block s) := by
  intro o ho
  rcases held_insertOrphan.mp ho with rfl | ho
  · exact hblock
  · exact hrank o ho

theorem exists_storeOrphan (hs : OrphansAgree env s) (hrank : Ranked rank s)
    (hblock : rank a.block.hashPrevBlock < rank (env.getBlockHash a.block))
    (hnew : s.mapOrphanBlocks.lookup (env.getBlockHash a.block) = none)
    (hfuel : callFuel env rank a s ≤ fuel) : ∃ r, storeOrphan env fuel a s = some r := by
  unfold callFuel at hfuel
  unfold storeOrphan
  dsimp only
  split
  · exact ⟨_, rfl⟩
  · split
    · exact ⟨_, rfl⟩
    · obtain ⟨s₁, hprune⟩ : ∃ s₁,
          pruneOrphanBlocks fuel a.nMaxOrphanBlocks a.insecureRand s = some s₁ :=
        exists_pruneOrphanBlocks hs hrank _ _ (by omega)
      obtain ⟨gone, hremoved, -⟩ := pruneOrphanBlocks_removed hs hprune
      have hnew₁ : s₁.mapOrphanBlocks.lookup (env.getBlockHash a.block) = none := by
        cases hl : s₁.mapOrphanBlocks.lookup (env.getBlockHash a.block) with
        | none => rfl
        | some o =>
          rw [(hremoved.lookup.mp hl).1] at hnew
          cases hnew
      have hs₁ := (hremoved.agree hs).insertOrphan hnew₁
      have hrank₁ := (hrank.of_removed hremoved).insertOrphan hblock
      obtain ⟨root, hroot⟩ : ∃ root, getOrphanRoot fuel
          (Sphinx.insertOrphan env a.block s₁).mapOrphanBlocks (env.getBlockHash a.block) = some root :=
        exists_getOrphanRoot hs₁ hrank₁ _ (by omega)
      obtain ⟨wanted, hwanted⟩ : ∃ wanted, wantedByOrphan fuel
          (Sphinx.insertOrphan env a.block s₁).mapOrphanBlocks (.ofBlock env a.block) = some wanted :=
        exists_wantedByOrphan hs₁ hrank₁ _ (show rank a.block.hashPrevBlock < fuel by omega)
      rw [hprune, Option.bind_eq_bind, Option.bind_some, hroot, Option.bind_eq_bind, Option.bind_some]
      split
      · exact ⟨_, rfl⟩
      · rw [hwanted]
        exact ⟨_, rfl⟩

theorem exists_processBlock (hs : OrphansAgree env s) (hrank : Ranked rank s)
    (hblock : rank a.block.hashPrevBlock < rank (env.getBlockHash a.block))
    (hfuel : callFuel env rank a s ≤ fuel) : ∃ r, processBlock env fuel a s = some r := by
  unfold processBlock
  dsimp only
  split
  · exact ⟨_, rfl⟩
  split
  · exact ⟨_, rfl⟩
  next hnew =>
  split
  · exact ⟨_, rfl⟩
  split
  · exact ⟨_, rfl⟩
  split
  · exact ⟨_, rfl⟩
  split
  · exact exists_storeOrphan hs hrank hblock (by simpa using hnew) hfuel
  · split
    · exact ⟨_, rfl⟩
    · next node _ =>
      unfold callFuel at hfuel
      obtain ⟨w, hw⟩ : ∃ w, processWorkQueue env a fuel
          ⟨{ s with node := node }, [env.getBlockHash a.block], [true, true, true]⟩ = some w :=
        exists_processWorkQueue env a (show 1 + s.mapOrphanBlocksByPrev.length < fuel by omega)
      rw [hw]
      exact ⟨_, rfl⟩

end Rank

/-! ### Runs with acceptable blocks -/

/-- The blocks form a tree: a block, given by its hash, has one parent, and the parents come before
their children. -/
structure IsBlockTree (env : Env) (tree : Set CBlock) : Prop where
  parent : ∀ {block block'}, block ∈ tree → block' ∈ tree →
    env.getBlockHash block = env.getBlockHash block' → block.hashPrevBlock = block'.hashPrevBlock
  rank : ∃ rank : Uint256 → Nat, ∀ block ∈ tree,
    rank block.hashPrevBlock < rank (env.getBlockHash block)

/-- A held orphan whose chain of held ancestors reaches the block with hash `h`. -/
inductive HeldDescendant (s : BlockNode) (h : Uint256) : COrphanBlock → Prop
  | child {o : COrphanBlock} : Held s o → o.hashPrev = h → HeldDescendant s h o
  | step {d o : COrphanBlock} : HeldDescendant s h d → Held s o → o.hashPrev = d.hashBlock →
      HeldDescendant s h o

/-- Every check of the call has passed. -/
def ProcessResult.acceptable (r : ProcessResult) : Prop := ∀ v ∈ r.verdicts, v = true

/-- A call of `ProcessBlock` on a block of the tree that returns and in which every check passes. -/
def OrphanStep (env : Env) (tree : Set CBlock) (s s' : BlockNode) : Prop :=
  ∃ a fuel r, a.block ∈ tree ∧ processBlock env fuel a s = some r ∧ r.acceptable ∧ s' = r.state

/-- No orphan can be connected. -/
def Stranded (s : BlockNode) : Prop := ∀ o, Held s o → s.node.mapBlockIndex o.hashPrev = none

structure OrphanInv (env : Env) (tree : Set CBlock) (s : BlockNode) : Prop where
  agree : OrphansAgree env s
  keyed : HashKeyed s.node.mapBlockIndex
  blocks : ∀ o, Held s o → o.block ∈ tree
  stranded : Stranded s

variable {tree : Set CBlock}

theorem OrphanInv.ranked (hinv : OrphanInv env tree s) {rank : Uint256 → Nat}
    (htree : ∀ block ∈ tree, rank block.hashPrevBlock < rank (env.getBlockHash block)) :
    Ranked rank s := by
  intro o ho
  have hlt := htree o.block (hinv.blocks o ho)
  have hfields := hinv.agree.fields ho
  rw [hfields]
  exact hlt

/-- What a call leaves behind: no orphan that can be connected, and every orphan that was held before
is held or indexed. -/
structure Settled (s s' : BlockNode) : Prop where
  keyed : HashKeyed s'.node.mapBlockIndex
  stranded : Stranded s'
  kept : ∀ o, Held s o → Held s' o ∨ (s'.node.mapBlockIndex o.hashBlock).isSome

/-- A block with an indexed parent that gets past the first checks. -/
theorem settled_processWorkQueue {node : Node} (hinv : OrphanInv env tree s)
    (haccept : acceptBlock env (a.acceptCtx (env.getBlockHash a.block)) s.node a.block = .ok node)
    (hw : processWorkQueue env a fuel ⟨{ s with node := node }, [env.getBlockHash a.block],
        [true, true, true]⟩ = some w)
    (hall : ∀ v ∈ w.verdicts, v = true) :
    Settled s w.state ∧ (w.state.node.mapBlockIndex (env.getBlockHash a.block)).isSome := by
  obtain ⟨hkey, hindexed⟩ := acceptBlock_ok hinv.keyed haccept
  have hs' : OrphansAgree env { s with node := node } :=
    ⟨hinv.agree.keyed, hinv.agree.nodup, hinv.agree.same, hinv.agree.fields⟩
  -- the only newly indexed block is in the queue
  have hpending : Pending
      ⟨{ s with node := node }, [env.getBlockHash a.block], [true, true, true]⟩ := by
    intro o ho hparent
    rcases (hindexed _).mp hparent with hparent | hparent
    · rw [hinv.stranded o ho] at hparent
      cases hparent
    · exact List.mem_singleton.mpr hparent
  obtain ⟨hkey', hstranded, hmono, hkept⟩ := processWorkQueue_accepted hs' hkey hpending hw hall
  exact ⟨⟨hkey', hstranded, hkept⟩, hmono _ ((hindexed _).mpr (.inr rfl))⟩

theorem Settled.of_same (hinv : OrphanInv env tree s) : Settled s s :=
  ⟨hinv.keyed, hinv.stranded, fun _ ho => .inl ho⟩

theorem Settled.of_stored (hinv : OrphanInv env tree s) (hstored : StoredOrphan env a s s') :
    HashKeyed s'.node.mapBlockIndex ∧ Stranded s' := by
  obtain ⟨gone, s₁, hremoved, hnode, -, rfl⟩ := hstored.removed
  have hnode' : (insertOrphan env a.block s₁).node = s.node := hnode
  rw [Stranded, hnode']
  refine ⟨hinv.keyed, ?_⟩
  intro o ho
  rcases held_insertOrphan.mp ho with rfl | ho
  · exact hstored.parent
  · exact hinv.stranded o (hremoved.held.mp ho).1

/-- A call in which every check passes, by whether the parent of the block is indexed. -/
theorem processBlock_settled (htree : IsBlockTree env tree) (hinv : OrphanInv env tree s)
    (hblock : a.block ∈ tree) (h : processBlock env fuel a s = some r) (hacc : r.acceptable) :
    (s.node.mapBlockIndex a.block.hashPrevBlock = none ∧
      HashKeyed r.state.node.mapBlockIndex ∧ Stranded r.state) ∨
    (Settled s r.state ∧ ((r.state.node.mapBlockIndex (env.getBlockHash a.block)).isSome ∨
      hasOrphanChild s (env.getBlockHash a.block) = false)) := by
  unfold processBlock at h
  dsimp only at h
  split at h
  · next hindexed =>
    obtain rfl := Option.some.inj h
    exact .inr ⟨.of_same hinv, .inl hindexed⟩
  split at h
  · next hheld =>
    -- the parent of a held orphan is not indexed
    obtain rfl := Option.some.inj h
    obtain ⟨o, ho⟩ := Option.isSome_iff_exists.mp hheld
    obtain ⟨heq, hheld⟩ := hinv.agree.same.mp ho
    have hfields := hinv.agree.fields hheld
    have hprev : o.hashPrev = a.block.hashPrevBlock := by
      rw [hfields] at heq ⊢
      exact htree.parent (hinv.blocks o hheld) hblock heq
    refine .inl ⟨?_, hinv.keyed, hinv.stranded⟩
    rw [← hprev]
    exact hinv.stranded o hheld
  next hnew =>
  split at h
  · next hdup =>
    obtain rfl := Option.some.inj h
    refine .inr ⟨.of_same hinv, .inr ?_⟩
    simp only [Bool.and_eq_true, Bool.not_eq_true'] at hdup
    exact hdup.2
  split at h
  · obtain rfl := Option.some.inj h
    exact absurd (hacc false (by simp)) (by decide)
  split at h
  · obtain rfl := Option.some.inj h
    exact absurd (hacc false (by simp)) (by decide)
  split at h
  · next hparent =>
    have hnone : s.node.mapBlockIndex a.block.hashPrevBlock = none := by simpa using hparent
    rcases storeOrphan_cases hinv.agree hnone (by simpa using hnew) h with heq | hstored
    · rw [heq]
      exact .inl ⟨hnone, hinv.keyed, hinv.stranded⟩
    · exact .inl ⟨hnone, Settled.of_stored hinv hstored⟩
  · split at h
    · obtain rfl := Option.some.inj h
      exact absurd (hacc false (by simp)) (by decide)
    · next node haccept =>
      obtain ⟨w, hw, h⟩ := Option.bind_eq_some_iff.mp h
      obtain rfl := Option.some.inj h
      obtain ⟨hsettled, hindexed⟩ := settled_processWorkQueue hinv haccept hw hacc
      exact .inr ⟨hsettled, .inl hindexed⟩

theorem OrphanInv.step (htree : IsBlockTree env tree) (hinv : OrphanInv env tree s)
    (hblock : a.block ∈ tree) (h : processBlock env fuel a s = some r) (hacc : r.acceptable) :
    OrphanInv env tree r.state := by
  have hboth : HashKeyed r.state.node.mapBlockIndex ∧ Stranded r.state := by
    rcases processBlock_settled htree hinv hblock h hacc with ⟨-, hboth⟩ | ⟨hsettled, -⟩
    · exact hboth
    · exact ⟨hsettled.keyed, hsettled.stranded⟩
  refine ⟨hinv.agree.processBlock h, hboth.1, ?_, hboth.2⟩
  intro o ho
  rcases processBlock_cases hinv.agree h with ⟨gone, hremoved⟩ | ⟨-, hstored⟩
  · exact hinv.blocks o (hremoved.held.mp ho).1
  · obtain ⟨gone, s₁, hremoved, -, -, heq⟩ := hstored.removed
    rw [heq] at ho
    rcases held_insertOrphan.mp ho with rfl | ho
    · exact hblock
    · exact hinv.blocks o (hremoved.held.mp ho).1

/-- A state without orphans, at the start of a run. -/
structure NoOrphans (s : BlockNode) : Prop where
  keyed : HashKeyed s.node.mapBlockIndex
  map : s.mapOrphanBlocks = ∅
  byPrev : s.mapOrphanBlocksByPrev = []
  stakes : s.setStakeSeenOrphan = ∅

theorem NoOrphans.not_held (h : NoOrphans s) (o : COrphanBlock) : ¬ Held s o := by
  rw [Held, h.byPrev]
  exact List.not_mem_nil

theorem NoOrphans.agree (h : NoOrphans s) : OrphansAgree env s := by
  refine ⟨?_, ?_, ?_, ?_⟩
  · intro e he
    rw [h.byPrev] at he
    cases he
  · rw [h.byPrev]
    exact List.nodup_nil
  · intro k o
    rw [h.map, AList.lookup_empty]
    constructor
    · intro hnone
      cases hnone
    · intro ho
      exact absurd ho.2 (h.not_held o)
  · intro o ho
    exact absurd ho (h.not_held o)

theorem NoOrphans.inv (h : NoOrphans s) : OrphanInv env tree s :=
  ⟨h.agree, h.keyed, fun o ho => absurd ho (h.not_held o), fun o ho => absurd ho (h.not_held o)⟩

theorem orphanRun_inv {start : BlockNode} (htree : IsBlockTree env tree) (hstart : NoOrphans start)
    (hrun : ReflTransGen (OrphanStep env tree) start s) : OrphanInv env tree s := by
  induction hrun with
  | refl => exact hstart.inv
  | tail _ hstep ih =>
    obtain ⟨a, fuel, r, hblock, h, hacc, rfl⟩ := hstep
    exact ih.step htree hblock h hacc

/-- The held descendants of a block with an indexed parent are accepted with it. -/
theorem OrphanInv.descendants (htree : IsBlockTree env tree) (hinv : OrphanInv env tree s)
    (hblock : a.block ∈ tree) (h : processBlock env fuel a s = some r) (hacc : r.acceptable)
    (hparent : (s.node.mapBlockIndex a.block.hashPrevBlock).isSome)
    (ho : HeldDescendant s (env.getBlockHash a.block) o) :
    (r.state.node.mapBlockIndex o.hashBlock).isSome ∧ ¬ Held r.state o := by
  rcases processBlock_settled htree hinv hblock h hacc with ⟨hnone, -⟩ | ⟨hsettled, hindexed⟩
  · rw [hnone] at hparent
    cases hparent
  -- an orphan that is held afterwards has no indexed parent
  have hone : ∀ o, Held s o → (r.state.node.mapBlockIndex o.hashPrev).isSome →
      (r.state.node.mapBlockIndex o.hashBlock).isSome ∧ ¬ Held r.state o := by
    intro o ho hprev
    have hnot : ¬ Held r.state o := by
      intro hheld
      rw [hsettled.stranded o hheld] at hprev
      cases hprev
    rcases hsettled.kept o ho with hheld | hsome
    · exact absurd hheld hnot
    · exact ⟨hsome, hnot⟩
  induction ho with
  | @child o hheld heq =>
    rcases hindexed with hindexed | hchild
    · exact hone o hheld (by rw [heq]; exact hindexed)
    · have hany : hasOrphanChild s (env.getBlockHash a.block) = true := by
        rw [hasOrphanChild, List.any_eq_true]
        exact ⟨(o.hashPrev, o), hheld, by simpa using heq⟩
      rw [hchild] at hany
      cases hany
  | @step d o _ hheld heq ih => exact hone o hheld (by rw [heq]; exact ih.1)

theorem HeldDescendant.held {h : Uint256} (ho : HeldDescendant s h o) :
    Held s o := by
  cases ho with
  | child hheld _ => exact hheld
  | step _ hheld _ => exact hheld

/-- No other orphan comes under the hash of one that a call removes. -/
theorem OrphanInv.lookup_eq_none (hinv : OrphanInv env tree s) (h : processBlock env fuel a s = some r)
    (hparent : (s.node.mapBlockIndex a.block.hashPrevBlock).isSome) (ho : Held s o)
    (hnot : ¬ Held r.state o) :
    r.state.mapOrphanBlocks.lookup o.hashBlock = none := by
  cases hl : r.state.mapOrphanBlocks.lookup o.hashBlock with
  | none => rfl
  | some o' =>
    obtain ⟨heq, hheld⟩ := (hinv.agree.processBlock h).same.mp hl
    rcases processBlock_cases hinv.agree h with ⟨gone, hremoved⟩ | ⟨-, hstored⟩
    · have hsame := hinv.agree.eq_of_hashBlock (hremoved.held.mp hheld).1 ho heq
      rw [hsame] at hheld
      exact absurd hheld hnot
    · rw [hstored.parent] at hparent
      cases hparent

/-- **Orphans are processed.**  In every run over a block tree, in any order of arrival, the two maps
hold the same orphans and none of them has an indexed parent.  A further call returns, and if the
parent of the block is indexed, all its held descendants are accepted with it.  The loops over the
orphan chains end. -/
theorem orphanRun_spec {start : BlockNode} (htree : IsBlockTree env tree) (hstart : NoOrphans start)
    (hrun : ReflTransGen (OrphanStep env tree) start s) :
    (∀ h o, s.mapOrphanBlocks.lookup h = some o ↔
      o.hashBlock = h ∧ (o.hashPrev, o) ∈ s.mapOrphanBlocksByPrev) ∧
    (∀ e ∈ s.mapOrphanBlocksByPrev, e.1 = e.2.hashPrev) ∧
    (s.mapOrphanBlocksByPrev.map fun e => e.2.hashBlock).Nodup ∧
    (∀ h o, s.mapOrphanBlocks.lookup h = some o → s.node.mapBlockIndex o.hashPrev = none) ∧
    (∀ a : IncomingBlock, a.block ∈ tree → ∃ fuel₀, ∀ fuel, fuel₀ ≤ fuel →
      ∃ r, processBlock env fuel a s = some r ∧
        (r.acceptable → (s.node.mapBlockIndex a.block.hashPrevBlock).isSome →
          ∀ o, HeldDescendant s (env.getBlockHash a.block) o →
            (r.state.node.mapBlockIndex o.hashBlock).isSome ∧
              r.state.mapOrphanBlocks.lookup o.hashBlock = none)) ∧
    (∀ hash, ∃ fuel₀, ∀ fuel, fuel₀ ≤ fuel →
      ∃ root, getOrphanRoot fuel s.mapOrphanBlocks hash = some root) ∧
    (∀ o, ∃ fuel₀, ∀ fuel, fuel₀ ≤ fuel →
      ∃ wanted, wantedByOrphan fuel s.mapOrphanBlocks o = some wanted) ∧
    ∀ nMaxOrphanBlocks insecureRand, ∃ fuel₀, ∀ fuel, fuel₀ ≤ fuel →
      ∃ s', pruneOrphanBlocks fuel nMaxOrphanBlocks insecureRand s = some s' := by
  have hinv := orphanRun_inv htree hstart hrun
  -- the orphans are ranked as in the tree, so the loops over them end
  obtain ⟨rank, hrank⟩ := htree.rank
  have hranked := hinv.ranked hrank
  refine ⟨fun h o => hinv.agree.same, fun e he => hinv.agree.keyed he, hinv.agree.nodup, ?_, ?_, ?_,
    ?_, ?_⟩
  · intro h o ho
    exact hinv.stranded o (hinv.agree.same.mp ho).2
  · intro a hblock
    refine ⟨callFuel env rank a s, fun fuel hfuel => ?_⟩
    obtain ⟨r, hr⟩ := exists_processBlock hinv.agree hranked (hrank _ hblock) hfuel
    refine ⟨r, hr, fun hacc hparent o ho => ?_⟩
    obtain ⟨hindexed, hnot⟩ := hinv.descendants htree hblock hr hacc hparent ho
    exact ⟨hindexed, hinv.lookup_eq_none hr hparent ho.held hnot⟩
  · intro hash
    exact ⟨rank hash + 1, fun fuel hfuel => exists_getOrphanRoot hinv.agree hranked hash hfuel⟩
  · intro o
    exact ⟨rank o.hashPrev + 1, fun fuel hfuel => exists_wantedByOrphan hinv.agree hranked o hfuel⟩
  · intro nMaxOrphanBlocks insecureRand
    exact ⟨rankBound rank s + 1, fun fuel hfuel =>
      exists_pruneOrphanBlocks hinv.agree hranked nMaxOrphanBlocks insecureRand hfuel⟩

/-! ### Seen stakes -/

/-- `setStakeSeenOrphan` has the stakes of the proof-of-stake orphans and no others. -/
def SeenStakesAgree (s : BlockNode) : Prop :=
  ∀ p, p ∈ s.setStakeSeenOrphan ↔
    ∃ h o, s.mapOrphanBlocks.lookup h = some o ∧ o.block.isProofOfStake = true ∧ o.stake = p

/-- No two proof-of-stake orphans have the same stake. -/
def DistinctStakes (s : BlockNode) : Prop :=
  ∀ {o o'}, Held s o → Held s o' → o.block.isProofOfStake = true → o'.block.isProofOfStake = true →
    o.stake = o'.stake → o = o'

structure StakeInv (env : Env) (s : BlockNode) : Prop where
  agree : OrphansAgree env s
  seen : ∀ {p}, p ∈ s.setStakeSeenOrphan ↔
    ∃ o, Held s o ∧ o.block.isProofOfStake = true ∧ o.stake = p
  distinct : DistinctStakes s

theorem StakeInv.seenStakesAgree (hinv : StakeInv env s) : SeenStakesAgree s := by
  intro p
  rw [hinv.seen]
  constructor
  · rintro ⟨o, ho, hrest⟩
    exact ⟨o.hashBlock, o, hinv.agree.same.mpr ⟨rfl, ho⟩, hrest⟩
  · rintro ⟨h, o, ho, hrest⟩
    exact ⟨o, (hinv.agree.same.mp ho).2, hrest⟩

theorem CBlock.getProofOfStake_ne (h : block.isProofOfStake = true) :
    block.getProofOfStake ≠ (COutPoint.null, 0) := by
  unfold getProofOfStake
  rw [h]
  unfold isProofOfStake at h
  rcases hvtx : block.vtx with _ | ⟨tx0, _ | ⟨tx, rest⟩⟩
  · rw [hvtx] at h
    cases h
  · rw [hvtx] at h
    cases h
  · rw [hvtx] at h
    have hstake : tx.isCoinStake = true := h
    unfold CTransaction.isCoinStake at hstake
    split at hstake
    · next txin _ _ _ _ hvin _ =>
      intro heq
      have hnull : txin.prevout = COutPoint.null := by
        have hfst : (tx.vin.headD ⟨COutPoint.null, [], 0⟩).prevout = COutPoint.null :=
          congrArg Prod.fst heq
        rw [hvin] at hfst
        exact hfst
      rw [hnull] at hstake
      simp [COutPoint.null, COutPoint.isNull] at hstake
    · cases hstake

/-- A removal erases the stakes of the orphans that are gone, and no orphan that stays has one of
them. -/
theorem StakeInv.of_removed (hinv : StakeInv env s) (h : Removed gone s s') : StakeInv env s' := by
  refine ⟨h.agree hinv.agree, ?_, ?_⟩
  · intro p
    rw [h.stakes, hinv.seen]
    constructor
    · rintro ⟨⟨o, ho, hpos, hstake⟩, hgone⟩
      exact ⟨o, h.held.mpr ⟨ho, fun hg => hgone o ho hg hstake⟩, hpos, hstake⟩
    · rintro ⟨o, ho, hpos, hstake⟩
      obtain ⟨ho, hstays⟩ := h.held.mp ho
      refine ⟨⟨o, ho, hpos, hstake⟩, ?_⟩
      rintro o' ho' hg rfl
      cases hpos' : o'.block.isProofOfStake with
      | true =>
        rw [hinv.distinct ho ho' hpos hpos' hstake] at hstays
        exact hstays hg
      | false =>
        -- a proof-of-work block erases the null pair
        have hnull : o'.stake = (COutPoint.null, 0) := by
          rw [hinv.agree.fields ho']
          show o'.block.getProofOfStake = _
          unfold CBlock.getProofOfStake
          rw [hpos']
        have hne := CBlock.getProofOfStake_ne hpos
        have hfields : o.stake = o.block.getProofOfStake :=
          congrArg COrphanBlock.stake (hinv.agree.fields ho)
        exact hne (by rw [← hfields, hstake, hnull])
  · intro o o' ho ho'
    exact hinv.distinct (h.held.mp ho).1 (h.held.mp ho').1

theorem StakeInv.insertOrphan (hinv : StakeInv env s)
    (hnew : s.mapOrphanBlocks.lookup (env.getBlockHash block) = none)
    (hstake : block.isProofOfStake = true → block.getProofOfStake ∉ s.setStakeSeenOrphan) :
    StakeInv env (Sphinx.insertOrphan env block s) := by
  have hfresh : ∀ o, Held s o → o.block.isProofOfStake = true → block.isProofOfStake = true →
      o.stake ≠ block.getProofOfStake := by
    intro o ho hpos hblock heq
    exact hstake hblock (hinv.seen.mpr ⟨o, ho, hpos, heq⟩)
  refine ⟨hinv.agree.insertOrphan hnew, ?_, ?_⟩
  · intro p
    show p ∈ (if block.isProofOfStake then insert block.getProofOfStake s.setStakeSeenOrphan
      else s.setStakeSeenOrphan) ↔ _
    simp only [held_insertOrphan]
    by_cases hblock : block.isProofOfStake = true
    · rw [if_pos hblock, Finset.mem_insert, hinv.seen]
      constructor
      · rintro (rfl | ⟨o, ho, hrest⟩)
        · exact ⟨.ofBlock env block, .inl rfl, hblock, rfl⟩
        · exact ⟨o, .inr ho, hrest⟩
      · rintro ⟨o, rfl | ho, hpos, rfl⟩
        · exact .inl rfl
        · exact .inr ⟨o, ho, hpos, rfl⟩
    · rw [if_neg hblock, hinv.seen]
      constructor
      · rintro ⟨o, ho, hrest⟩
        exact ⟨o, .inr ho, hrest⟩
      · rintro ⟨o, rfl | ho, hpos, hrest⟩
        · exact absurd hpos hblock
        · exact ⟨o, ho, hpos, hrest⟩
  · intro o o' ho ho' hpos hpos' heq
    rcases held_insertOrphan.mp ho with rfl | ho
    · rcases held_insertOrphan.mp ho' with rfl | ho'
      · rfl
      · exact absurd heq.symm (hfresh o' ho' hpos' hpos)
    · rcases held_insertOrphan.mp ho' with rfl | ho'
      · exact absurd heq (hfresh o ho hpos hpos')
      · exact hinv.distinct ho ho' hpos hpos' heq

/-- The call stores a proof-of-stake orphan whose stake has been seen on another orphan; it gets past the
check for duplicates because an orphan depends on it. -/
def sharesStake (env : Env) (a : IncomingBlock) (s : BlockNode) : Prop :=
  IsNewBlock env a s ∧ a.block.isProofOfStake = true ∧ a.pfrom = true ∧
  s.node.mapBlockIndex a.block.hashPrevBlock = none ∧
  a.block.getProofOfStake ∈ s.setStakeSeenOrphan ∧
  hasOrphanChild s (env.getBlockHash a.block) = true

/-- A call of `ProcessBlock` that returns. -/
def ProcessStep (env : Env) (P : IncomingBlock → BlockNode → Prop) (s s' : BlockNode) : Prop :=
  ∃ a fuel r, P a s ∧ processBlock env fuel a s = some r ∧ s' = r.state

theorem StakeInv.step (hinv : StakeInv env s) (hshares : ¬ sharesStake env a s)
    (h : processBlock env fuel a s = some r) :
    StakeInv env r.state := by
  rcases processBlock_cases hinv.agree h with ⟨gone, hremoved⟩ | ⟨hchecked, hstored⟩
  · exact hinv.of_removed hremoved
  · obtain ⟨gone, s₁, hremoved, -, hnew, heq⟩ := hstored.removed
    rw [heq]
    refine (hinv.of_removed hremoved).insertOrphan hnew ?_
    intro hpos hseen
    have hseen' := (hremoved.stakes.mp hseen).1
    exact hshares ⟨hchecked, hpos, hstored.pfrom, hstored.parent, hseen', hstored.duplicate hpos hseen'⟩

/-- **Seen stakes.**  In every run in which no orphan is stored whose stake has been seen on another
one, `setStakeSeenOrphan` is the set of the stakes of the orphans held. -/
theorem stakeRun_agree {start : BlockNode} (hstart : NoOrphans start)
    (hrun : ReflTransGen (ProcessStep env fun a s => ¬ sharesStake env a s) start s) :
    SeenStakesAgree s := by
  suffices hinv : StakeInv env s from hinv.seenStakesAgree
  induction hrun with
  | refl =>
    refine ⟨hstart.agree, ?_, ?_⟩
    · intro p
      rw [hstart.stakes]
      constructor
      · intro hp
        cases hp
      · rintro ⟨o, ho, -⟩
        exact absurd ho (hstart.not_held o)
    · intro o o' ho
      exact absurd ho (hstart.not_held o)
  | tail _ hstep ih =>
    obtain ⟨a, fuel, r, hshares, h, rfl⟩ := hstep
    exact ih.step hshares h

/-! ### Sample runs -/

def nonceBlockHash (block : CBlock) : Uint256 := 100 + block.nTime + 1000 * block.nNonce

/-- A proof-of-work block on top of the genesis block, with hash 190. -/
def rootBlock : CBlock := rewardBlock 105 90 (rewardTx 10 0x51 (10000 * coin))

/-- A proof-of-work block on top of `rootBlock`, with hash 195. -/
def childBlock : CBlock := rewardBlock 190 95 (rewardTx 11 0x52 (10000 * coin))

/-- Two proof-of-stake blocks with the same stake, with hashes 196 and 1196.  The first is on top of
`rootBlock`, the parent of the second is not known. -/
def stakeBlock (hashPrevBlock nNonce : Nat) : CBlock :=
  { sampleBlock [{ emptyCoinbase with nTime := 95 }, { payingCoinstake (5 * coin) with nTime := 96 }]
    with hashPrevBlock := hashPrevBlock, nTime := 96, nNonce := nNonce }

/-- A proof-of-work block on top of the second proof-of-stake block, with hash 197. -/
def grandchildBlock : CBlock := rewardBlock 1196 97 (rewardTx 12 0x53 (10000 * coin))

def orphanEnv : Env :=
  Env.permissive sampleTxHash nonceBlockHash (fun _ _ _ _ _ _ => true)
    (BlockFiles.ofBlocks [rootBlock, childBlock, stakeBlock 190 0])

def incoming (block : CBlock) : IncomingBlock where
  block := block
  pfrom := true
  fReindex := false
  fImporting := false
  isDERSignature _ := true
  ctx := { sampleCtx with nAdjustedTime := 100 }
  nMaxOrphanBlocks := 10000
  insecureRand := 0
  acceptCtx h := {
    ctx := { sampleCtx with nAdjustedTime := 100 }
    connectCtx _ := { sampleCtx with nAdjustedTime := 100 }
    fDiskSpace := true
    writeToDisk := some (if h = 190 then 1 else if h = 195 then 2 else 3, 8) }

def received : List CBlock → BlockNode
  | [] => ⟨genesisNode, ∅, [], ∅⟩
  | block :: earlier =>
    ((processBlock orphanEnv 10 (incoming block) (received earlier)).map (·.state)).getD
      (received earlier)

theorem noOrphans_received : NoOrphans (received []) := by
  have hinv : BestInv orphanEnv 105 genesisNode 105 := bestInv_onlyGenesis onlyGenesis_genesisNode
  exact ⟨hinv.chainTip.tree.hash, rfl, rfl, rfl⟩

theorem processStep_received {P : IncomingBlock → BlockNode → Prop} (block : CBlock)
    (earlier : List CBlock)
    (hsome : (processBlock orphanEnv 10 (incoming block) (received earlier)).isSome = true)
    (hP : P (incoming block) (received earlier)) :
    ProcessStep orphanEnv P (received earlier) (received (block :: earlier)) := by
  obtain ⟨r, hr⟩ := Option.isSome_iff_exists.mp hsome
  refine ⟨incoming block, 10, r, hP, hr, ?_⟩
  show ((processBlock orphanEnv 10 (incoming block) (received earlier)).map _).getD _ = _
  rw [hr]
  rfl

/-- **Two orphans with one stake.**  The second one is stored because an orphan depends on it.  When
the parent of the first one arrives, its stake is erased while the second one is still held. -/
theorem stakeRun_disagrees :
    NoOrphans (received []) ∧
    ReflTransGen (ProcessStep orphanEnv fun _ _ => True) (received [])
      (received [rootBlock, stakeBlock 777 1, grandchildBlock, stakeBlock 190 0]) ∧
    ¬ SeenStakesAgree
      (received [rootBlock, stakeBlock 777 1, grandchildBlock, stakeBlock 190 0]) := by
  refine ⟨noOrphans_received, ?_, ?_⟩
  · refine (((ReflTransGen.single (processStep_received _ _ ?_ trivial)).tail
      (processStep_received _ _ ?_ trivial)).tail (processStep_received _ _ ?_ trivial)).tail
      (processStep_received _ _ ?_ trivial) <;> decide
  · intro hagree
    have hmem := (hagree (stakeBlock 777 1).getProofOfStake).mpr
      ⟨1196, .ofBlock orphanEnv (stakeBlock 777 1), by decide, by decide, rfl⟩
    exact absurd hmem (by decide)

/-- A proof-of-work block on top of the first proof-of-stake block, with hash 198. -/
def otherGrandchildBlock : CBlock := rewardBlock 196 98 (rewardTx 13 0x54 (10000 * coin))

/-- The first one is relayed again when an orphan depends on it, and is not stored a second time.  Without
an orphan that depends on it, the second one is turned away. -/
theorem stakeRun_agree_received :
    hasOrphanChild (received [otherGrandchildBlock, stakeBlock 190 0]) 196 = true ∧
      SeenStakesAgree (received [rootBlock, stakeBlock 777 1, stakeBlock 190 0, otherGrandchildBlock,
        stakeBlock 190 0]) := by
  have hshares : ∀ {block earlier}, (decide (block.getProofOfStake ∈ (received earlier).setStakeSeenOrphan)
      && hasOrphanChild (received earlier) (orphanEnv.getBlockHash block)
      && ((received earlier).mapOrphanBlocks.lookup (orphanEnv.getBlockHash block)).isNone) = false →
      ¬ sharesStake orphanEnv (incoming block) (received earlier) := by
    rintro block earlier h ⟨⟨-, hnew, -⟩, -, -, -, hseen, hchild⟩
    have hchild' : hasOrphanChild (received earlier) (orphanEnv.getBlockHash block) = true := hchild
    have hseen' : block.getProofOfStake ∈ (received earlier).setStakeSeenOrphan := hseen
    have hnew' : (received earlier).mapOrphanBlocks.lookup (orphanEnv.getBlockHash block) = none := hnew
    rw [hchild', decide_eq_true hseen', hnew'] at h
    cases h
  have hstep : ∀ {block earlier} hsome h, ProcessStep orphanEnv (fun a s => ¬ sharesStake orphanEnv a s)
      (received earlier) (received (block :: earlier)) :=
    fun {block earlier} hsome h => processStep_received block earlier hsome (hshares h)
  refine ⟨by decide, stakeRun_agree noOrphans_received (((((ReflTransGen.single (hstep ?_ ?_)).tail
    (hstep ?_ ?_)).tail (hstep ?_ ?_)).tail (hstep ?_ ?_)).tail (hstep ?_ ?_))⟩ <;> decide

theorem isBlockTree_root : IsBlockTree orphanEnv {rootBlock, childBlock} := by
  refine ⟨?_, fun h => if h = 105 then 0 else if h = 190 then 1 else 2, ?_⟩
  · rintro block block' (rfl | rfl) (rfl | rfl) heq
    · rfl
    · exact absurd heq (by decide)
    · exact absurd heq (by decide)
    · rfl
  · rintro block (rfl | rfl)
    · decide
    · decide

/-- The child arrives first and is held until its parent arrives. -/
theorem orphanRun_spec_received :
    HeldDescendant (received [childBlock]) 190 (.ofBlock orphanEnv childBlock) ∧
    ∃ fuel₀, ∀ fuel, fuel₀ ≤ fuel →
      ∃ r, processBlock orphanEnv fuel (incoming rootBlock) (received [childBlock]) = some r ∧
        (r.acceptable → (r.state.node.mapBlockIndex 195).isSome ∧
          r.state.mapOrphanBlocks.lookup 195 = none) := by
  have hheld : HeldDescendant (received [childBlock]) 190 (.ofBlock orphanEnv childBlock) :=
    .child (by unfold Held; decide) rfl
  have hrun : ReflTransGen (OrphanStep orphanEnv {rootBlock, childBlock}) (received [])
      (received [childBlock]) := by
    obtain ⟨r, hr⟩ := Option.isSome_iff_exists.mp (show (processBlock orphanEnv 10
      (incoming childBlock) (received [])).isSome = true by decide)
    have hall : (processBlock orphanEnv 10 (incoming childBlock) (received [])).all
      (fun r => r.verdicts.all id) = true := by decide
    rw [hr] at hall
    refine .single ⟨incoming childBlock, 10, r, by simp [incoming], hr, ?_, ?_⟩
    · simpa [ProcessResult.acceptable] using hall
    · show ((processBlock orphanEnv 10 (incoming childBlock) (received [])).map _).getD _ = _
      rw [hr]
      rfl
  refine ⟨hheld, ?_⟩
  obtain ⟨fuel₀, hfuel⟩ := (orphanRun_spec isBlockTree_root noOrphans_received hrun).2.2.2.2.1
    (incoming rootBlock) (by simp [incoming])
  refine ⟨fuel₀, fun fuel hle => ?_⟩
  obtain ⟨r, hr, hdesc⟩ := hfuel fuel hle
  exact ⟨r, hr, fun hacc => hdesc hacc (by decide) _ hheld⟩

/-- In the run above every check does pass. -/
example : (processBlock orphanEnv 10 (incoming rootBlock) (received [childBlock])).all
    (fun r => r.verdicts.all id && (r.state.node.mapBlockIndex 195).isSome) = true := by
  decide

end Sphinx
