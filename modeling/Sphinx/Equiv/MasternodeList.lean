import Sphinx.MasternodeMan
import Sphinx.Util.Run

/-!
# What the operations do to the list of masternodes

`ListEvent.intended` is what an operation is for: it adds or removes one masternode, or those that are
inactive, and leaves the others alone but for the state that `Check` sets.

* `nodup_outpoints_step`: no outpoint is listed twice, whatever the vector does to the entries;
* `keepsList_iff`: an operation does what it is for, and leaves the others in the order in which
  `FindOldestNotInVec` picks them, exactly if `ListEvent.Spares`;
* `masternodeList_integrity_iff`: the same for a run.

A copy of an entry has been paid right now.  The vector copies the entries when it grows and when an entry
before them is erased.  `Remove` looks at the first entry only, and returns if that is the one to remove.
-/

namespace Sphinx

open CMasternodeMan (findOldestNotInVec inactive oldestRound removeLoop)

variable {l : List MasternodeEntry} {mn : MasternodeEntry} {ctx : MasternodeCtx} {vin : CTxIn}

inductive ListOp
  | add (mn : MasternodeEntry)
  | remove (vin : CTxIn)
  | check
  | checkAndRemove
  | clear

/-- An operation, with what it reads. -/
structure ListEvent where
  ctx : MasternodeCtx
  op : ListOp

namespace CMasternodeMan

def outpoints (man : CMasternodeMan) : List COutPoint :=
  man.vMasternodes.toList.map fun mn => mn.vin.prevout

/-- An operation; `none` if it does not return. -/
def listStep (env : MasternodeEnv) (man : CMasternodeMan) (e : ListEvent) : Option CMasternodeMan :=
  match e.op with
  | .add mn => some (man.add env e.ctx mn).2
  | .remove vin => man.remove e.ctx vin
  | .check => some (man.check e.ctx)
  | .checkAndRemove => some (man.checkAndRemove env e.ctx)
  | .clear => some man.clear

end CMasternodeMan

namespace ListEvent

/-- The masternodes after the part of the operation that checks them. -/
def checked (e : ListEvent) (l : List MasternodeEntry) : List MasternodeEntry :=
  match e.op with
  | .check | .checkAndRemove => l.map (.check e.ctx)
  | _ => l

/-- What the operation is for. -/
def intended (env : MasternodeEnv) (e : ListEvent) (l : List MasternodeEntry) : List MasternodeEntry :=
  match e.op with
  | .add mn =>
    if mn.isEnabled ∧ mn.vin.prevout ∉ l.map fun mn => mn.vin.prevout then
      l ++ [mn.copy e.ctx.nAdjustedTime]
    else l
  | .remove vin => l.filter fun mn => mn.vin ≠ vin
  | .check => e.checked l
  | .checkAndRemove => (e.checked l).filter fun mn => !inactive env mn
  | .clear => []

/-- The vector copies no masternode but those that have been paid right now, and `Remove` is called with
the first masternode, or on an empty list. -/
def Spares (env : MasternodeEnv) (man : CMasternodeMan) (e : ListEvent) : Prop :=
  let Paid := fun l : List MasternodeEntry => ∀ mn ∈ l, mn.nLastPaid = e.ctx.nAdjustedTime
  let l := man.vMasternodes.toList
  match e.op with
  | .add mn => mn.isEnabled ∧ mn.vin.prevout ∉ man.outpoints →
      l.length < man.vMasternodes.capacity ∨ Paid l
  | .remove vin => l = [] ∨ (l.head?.map MasternodeEntry.vin = some vin ∧ Paid l.tail)
  | .checkAndRemove =>
    let active := fun mn => !inactive env mn
    -- the active masternodes behind the first inactive one
    Paid (((e.checked l).dropWhile active).filter active)
  | _ => True

end ListEvent

/-- `FindOldestNotInVec` picks the same masternode from both lists, if those that are in one list only are
in `vVins`. -/
def SamePicks (l l' : List MasternodeEntry) : Prop :=
  ∀ ctx vVins nMinimumAge,
    (∀ mn, ¬(mn ∈ l ↔ mn ∈ l') → ∃ vin ∈ vVins, mn.vin.prevout = vin.prevout) →
    (findOldestNotInVec ctx vVins nMinimumAge l).1
      = (findOldestNotInVec ctx vVins nMinimumAge l').1

/-- The operation returns, does what it is for, and leaves the order of the others alone. -/
def KeepsList (env : MasternodeEnv) (man : CMasternodeMan) (e : ListEvent) : Prop :=
  ∃ man', man.listStep env e = some man' ∧
    man'.vMasternodes.toList = e.intended env man.vMasternodes.toList ∧
    SamePicks (e.checked man.vMasternodes.toList) man'.vMasternodes.toList

variable {env : MasternodeEnv} {man man' : CMasternodeMan} {e : ListEvent}

/-! ### The masternode that is picked -/

/-- A round adds one masternode to the list, and passes over those in `vVins`. -/
theorem exists_oldestRound (ctx : MasternodeCtx) (vVins : List CTxIn) (nMinimumAge : Int)
    (oldest : Option MasternodeEntry) (mn : MasternodeEntry) : ∃ oldest' mn',
      (∀ visited, oldestRound ctx vVins nMinimumAge (oldest, visited) mn
        = (oldest', visited ++ [mn'])) ∧
      ((∃ vin ∈ vVins, mn.vin.prevout = vin.prevout) → oldest' = oldest) := by
  unfold oldestRound
  have hvin : ((mn.check ctx).getMasternodeInputAge ctx).2.vin = mn.vin := by simp
  dsimp only
  split_ifs with henabled hage hlisted holder
  · exact ⟨_, _, fun _ => rfl, fun _ => rfl⟩
  · exact ⟨_, _, fun _ => rfl, fun _ => rfl⟩
  · exact ⟨_, _, fun _ => rfl, fun _ => rfl⟩
  · refine ⟨_, _, fun _ => rfl, fun ⟨vin, hmem, heq⟩ => absurd ?_ hlisted⟩
    rw [List.any_eq_true]
    exact ⟨vin, hmem, by rw [hvin]; exact decide_eq_true heq⟩
  · exact ⟨_, _, fun _ => rfl, fun _ => rfl⟩

/-- Only the masternodes that are not in `vVins` matter. -/
theorem findOldestNotInVec_filter (ctx : MasternodeCtx) (vVins : List CTxIn) (nMinimumAge : Int)
    {p : MasternodeEntry → Bool}
    (hp : ∀ mn ∈ l, p mn = false → ∃ vin ∈ vVins, mn.vin.prevout = vin.prevout) :
    (findOldestNotInVec ctx vVins nMinimumAge (l.filter p)).1
      = (findOldestNotInVec ctx vVins nMinimumAge l).1 := by
  unfold findOldestNotInVec
  suffices h : ∀ oldest visited visited',
      ((l.filter p).foldl (oldestRound ctx vVins nMinimumAge) (oldest, visited')).1
        = (l.foldl (oldestRound ctx vVins nMinimumAge) (oldest, visited)).1 from h none [] []
  induction l with
  | nil => exact fun _ _ _ => rfl
  | cons mn l ih =>
    intro oldest visited visited'
    have ih := ih fun mn' hmn' => hp mn' (List.mem_cons_of_mem _ hmn')
    obtain ⟨oldest', mn', hround, hkept⟩ := exists_oldestRound ctx vVins nMinimumAge oldest mn
    rw [List.foldl_cons, hround]
    cases h : p mn with
    | true => rw [List.filter_cons_of_pos h, List.foldl_cons, hround]; exact ih _ _ _
    | false =>
      rw [List.filter_cons_of_neg (by rw [h]; exact Bool.false_ne_true),
        hkept (hp mn List.mem_cons_self h)]
      exact ih _ _ _

theorem samePicks_symm {l' : List MasternodeEntry} (h : SamePicks l l') : SamePicks l' l :=
  fun ctx vVins nMinimumAge hin =>
    (h ctx vVins nMinimumAge fun mn hmn => hin mn fun hiff => hmn hiff.symm).symm

theorem samePicks_filter (l : List MasternodeEntry) (p : MasternodeEntry → Bool) :
    SamePicks l (l.filter p) := by
  refine fun ctx vVins nMinimumAge hin => (findOldestNotInVec_filter ctx vVins nMinimumAge ?_).symm
  refine fun mn hmn hp => hin mn fun hiff => ?_
  rw [(List.mem_filter.mp (hiff.mp hmn)).2] at hp
  cases hp

theorem samePicks_append (hmn : mn ∉ l) :
    SamePicks l (l ++ [mn]) := by
  have hfilter : (l ++ [mn]).filter (fun mn' => decide (mn' ≠ mn)) = l := by
    rw [List.filter_append, List.filter_singleton, List.filter_eq_self.mpr]
    · simp
    · exact fun mn' hmn' => decide_eq_true fun h => hmn (h ▸ hmn')
  have h := samePicks_filter (l ++ [mn]) fun mn' => decide (mn' ≠ mn)
  rw [hfilter] at h
  exact samePicks_symm h

/-! ### `Remove` -/

theorem removeLoop_eq_none (hhead : man.vMasternodes.toList[0]? = some mn) (hne : mn.vin ≠ vin) :
    ∀ rounds, man.removeLoop ctx vin 0 rounds = none := by
  intro rounds
  induction rounds with
  | zero => rfl
  | succ rounds ih => simp only [removeLoop, hhead, if_neg hne, ih]

theorem remove_of_nil (h : man.vMasternodes.toList = []) :
    man.remove ctx vin = some man := by
  simp [CMasternodeMan.remove, removeLoop, h]

theorem remove_of_cons (h : man.vMasternodes.toList = mn :: l) (vin : CTxIn) :
    man.remove ctx vin = if mn.vin = vin then
      some { man with vMasternodes := man.vMasternodes.eraseAt (.copy ctx.nAdjustedTime) 0 } else none := by
  have hhead : man.vMasternodes.toList[0]? = some mn := by rw [h]; rfl
  split_ifs with heq
  · simp only [CMasternodeMan.remove, removeLoop, hhead, if_pos heq]
  · exact removeLoop_eq_none hhead heq _

/-! ### Outpoints -/

theorem prevout_copy (t : Int) (mn : MasternodeEntry) : (mn.copy t).vin.prevout = mn.vin.prevout := rfl

theorem inactive_copy (env : MasternodeEnv) (t : Int) (mn : MasternodeEntry) :
    inactive env (mn.copy t) = inactive env mn := rfl

theorem find_eq_none_iff : man.find vin = none ↔ vin.prevout ∉ man.outpoints := by
  unfold CMasternodeMan.find CMasternodeMan.outpoints
  rw [List.find?_eq_none]
  simp

theorem toList_add (env : MasternodeEnv) (ctx : MasternodeCtx) (man : CMasternodeMan)
    (mn : MasternodeEntry) : (man.add env ctx mn).2.vMasternodes =
      if mn.isEnabled ∧ mn.vin.prevout ∉ man.outpoints then
        man.vMasternodes.pushBack (.copy ctx.nAdjustedTime) env.recommend mn
      else man.vMasternodes := by
  unfold CMasternodeMan.add
  cases henabled : mn.isEnabled with
  | false => simp
  | true =>
    cases hfind : man.find mn.vin with
    | none => simp [find_eq_none_iff.mp hfind]
    | some pmn =>
      have hlisted : mn.vin.prevout ∈ man.outpoints := by
        by_contra h
        rw [find_eq_none_iff.mpr h] at hfind
        cases hfind
      simp [hlisted]

theorem outpoints_check (ctx : MasternodeCtx) : (man.check ctx).outpoints = man.outpoints := by
  unfold CMasternodeMan.outpoints CMasternodeMan.check
  rw [CopyVector.toList_map, List.map_map]
  rfl

theorem nodup_outpoints_add (ctx : MasternodeCtx) (mn : MasternodeEntry) (h : man.outpoints.Nodup) :
    (man.add env ctx mn).2.outpoints.Nodup := by
  unfold CMasternodeMan.outpoints
  rw [toList_add]
  split_ifs with hnew
  · rw [CopyVector.map_pushBack (f := fun mn : MasternodeEntry => mn.vin.prevout)
    (prevout_copy ctx.nAdjustedTime), ← CMasternodeMan.outpoints]
    exact List.nodup_append_comm.mp (List.nodup_cons.mpr ⟨hnew.2, h⟩)
  · exact h

theorem nodup_outpoints_checkAndRemove (ctx : MasternodeCtx) (h : man.outpoints.Nodup) :
    (man.checkAndRemove env ctx).outpoints.Nodup := by
  rw [← outpoints_check ctx] at h
  unfold CMasternodeMan.outpoints CMasternodeMan.checkAndRemove
  dsimp only
  rw [CopyVector.map_eraseWhere (f := fun mn : MasternodeEntry => mn.vin.prevout)
    (prevout_copy ctx.nAdjustedTime) (inactive_copy env ctx.nAdjustedTime)]
  exact h.sublist (List.filter_sublist.map _)

theorem nodup_outpoints_remove (h : man.outpoints.Nodup) (hstep : man.remove ctx vin = some man') :
    man'.outpoints.Nodup := by
  cases hl : man.vMasternodes.toList with
  | nil =>
    rw [remove_of_nil hl] at hstep
    exact Option.some.inj hstep ▸ h
  | cons mn l =>
    rw [remove_of_cons hl] at hstep
    split_ifs at hstep
    obtain rfl := Option.some.inj hstep
    unfold CMasternodeMan.outpoints
    dsimp only
    rw [CopyVector.map_eraseAt (f := fun mn : MasternodeEntry => mn.vin.prevout)
    (prevout_copy ctx.nAdjustedTime)]
    exact h.sublist (List.eraseIdx_sublist _ _)

/-- **No outpoint is listed twice.** -/
theorem nodup_outpoints_step (h : man.outpoints.Nodup) (hstep : man.listStep env e = some man') :
    man'.outpoints.Nodup := by
  obtain ⟨ctx, op⟩ := e
  cases op with
  | add mn => exact Option.some.inj hstep ▸ nodup_outpoints_add ctx mn h
  | remove vin => exact nodup_outpoints_remove h hstep
  | check => exact Option.some.inj hstep ▸ (outpoints_check ctx).symm ▸ h
  | checkAndRemove => exact Option.some.inj hstep ▸ nodup_outpoints_checkAndRemove ctx h
  | clear => exact Option.some.inj hstep ▸ List.nodup_nil

/-! ### One operation -/

theorem samePicks_refl (l : List MasternodeEntry) : SamePicks l l := fun _ _ _ _ => rfl

theorem forall_copy_eq_self_iff {t : Int} :
    (∀ mn ∈ l, mn.copy t = mn) ↔ ∀ mn ∈ l, mn.nLastPaid = t :=
  forall₂_congr fun _ _ => MasternodeEntry.copy_eq_self_iff t

theorem keepsList_add_iff (ctx : MasternodeCtx) (mn : MasternodeEntry) :
    KeepsList env man ⟨ctx, .add mn⟩ ↔ ListEvent.Spares env man ⟨ctx, .add mn⟩ := by
  have hstep : man.listStep env ⟨ctx, .add mn⟩ = some (man.add env ctx mn).2 := rfl
  have houtpoints : man.vMasternodes.toList.map (fun mn => mn.vin.prevout) = man.outpoints := rfl
  simp only [KeepsList, hstep, Option.some.injEq, exists_eq_left', ListEvent.intended, ListEvent.checked,
    toList_add, ListEvent.Spares, houtpoints]
  by_cases hnew : mn.isEnabled = true ∧ mn.vin.prevout ∉ man.outpoints
  · have hmn : mn.copy ctx.nAdjustedTime ∉ man.vMasternodes.toList := fun hmem =>
      hnew.2 (List.mem_map_of_mem (f := fun mn => mn.vin.prevout) hmem)
    rw [if_pos hnew, if_pos hnew, CopyVector.toList_pushBack_eq_iff, forall_copy_eq_self_iff]
    constructor
    · exact fun h _ => h.1
    · refine fun h => ⟨h hnew, ?_⟩
      rw [CopyVector.toList_pushBack_eq_iff.mpr
        ((h hnew).imp_right forall_copy_eq_self_iff.mpr)]
      exact samePicks_append hmn
  · rw [if_neg hnew, if_neg hnew]
    exact ⟨fun _ h => absurd h hnew, fun _ => ⟨rfl, samePicks_refl _⟩⟩

theorem keepsList_remove_iff (ctx : MasternodeCtx) (vin : CTxIn) (h : man.outpoints.Nodup) :
    KeepsList env man ⟨ctx, .remove vin⟩ ↔ ListEvent.Spares env man ⟨ctx, .remove vin⟩ := by
  have hstep : man.listStep env ⟨ctx, .remove vin⟩ = man.remove ctx vin := rfl
  simp only [KeepsList, hstep, ListEvent.intended, ListEvent.checked, ListEvent.Spares]
  cases hl : man.vMasternodes.toList with
  | nil =>
    rw [remove_of_nil hl]
    exact ⟨fun _ => .inl rfl, fun _ => ⟨man, rfl, hl, hl ▸ samePicks_refl _⟩⟩
  | cons mn l =>
    rw [remove_of_cons hl]
    by_cases heq : mn.vin = vin
    · have hothers : ∀ mn' ∈ l, mn'.vin ≠ vin := by
        intro mn' hmn' hvin
        rw [CMasternodeMan.outpoints, hl, List.map_cons, List.nodup_cons] at h
        refine h.1 (List.mem_map.mpr ⟨mn', hmn', ?_⟩)
        rw [hvin, heq]
      have hfilter : (mn :: l).filter (fun mn => decide (mn.vin ≠ vin)) = l := by
        rw [List.filter_cons_of_neg (by simp [heq]), List.filter_eq_self]
        exact fun mn' hmn' => decide_eq_true (hothers mn' hmn')
      rw [if_pos heq, hfilter]
      simp only [Option.some.injEq, exists_eq_left', CopyVector.toList_eraseAt_zero_eq_iff hl,
        forall_copy_eq_self_iff]
      constructor
      · exact fun hkeep => .inr ⟨congrArg some heq, hkeep.1⟩
      · rintro (hnil | ⟨-, hpaid⟩)
        · cases hnil
        · refine ⟨hpaid, ?_⟩
          rw [(CopyVector.toList_eraseAt_zero_eq_iff hl).mpr (forall_copy_eq_self_iff.mpr hpaid)]
          have hpicks := samePicks_filter (mn :: l) fun mn => decide (mn.vin ≠ vin)
          rw [hfilter] at hpicks
          exact hpicks
    · rw [if_neg heq]
      constructor
      · rintro ⟨_, hnone, -⟩
        cases hnone
      · rintro (hnil | ⟨hhead, -⟩)
        · cases hnil
        · exact absurd (Option.some.inj hhead) heq

theorem keepsList_checkAndRemove_iff (ctx : MasternodeCtx) :
    KeepsList env man ⟨ctx, .checkAndRemove⟩ ↔ ListEvent.Spares env man ⟨ctx, .checkAndRemove⟩ := by
  have hstep : man.listStep env ⟨ctx, .checkAndRemove⟩ = some (man.checkAndRemove env ctx) := rfl
  have hiff := CopyVector.toList_eraseWhere_eq_iff (inactive_copy env ctx.nAdjustedTime)
    (fun _ => MasternodeEntry.copy_copy ctx.nAdjustedTime) (v := (man.check ctx).vMasternodes)
  simp only [KeepsList, hstep, Option.some.injEq, exists_eq_left']
  constructor
  · exact fun h => forall_copy_eq_self_iff.mp (hiff.mp h.1)
  · intro h
    have heq := hiff.mpr (forall_copy_eq_self_iff.mpr h)
    exact ⟨heq, heq ▸ samePicks_filter _ _⟩

theorem keepsList_iff (h : man.outpoints.Nodup) : KeepsList env man e ↔ e.Spares env man := by
  obtain ⟨ctx, op⟩ := e
  cases op with
  | add mn => exact keepsList_add_iff ctx mn
  | remove vin => exact keepsList_remove_iff ctx vin h
  | check => exact ⟨fun _ => trivial, fun _ => ⟨_, rfl, rfl, samePicks_refl _⟩⟩
  | checkAndRemove => exact keepsList_checkAndRemove_iff ctx
  | clear =>
    have hpicks := samePicks_filter man.vMasternodes.toList fun _ => false
    rw [List.filter_false] at hpicks
    exact ⟨fun _ => trivial, fun _ => ⟨_, rfl, rfl, hpicks⟩⟩

/-! ### Runs -/

/-- **Integrity of the list.**  No outpoint is ever listed twice, and a run of operations keeps the list
in order exactly if each of them spares the other masternodes. -/
theorem masternodeList_integrity_iff (env : MasternodeEnv) (es : List ListEvent) (man : CMasternodeMan)
    (h : man.outpoints.Nodup) :
    Run.Along (CMasternodeMan.listStep env) (fun man => man.outpoints.Nodup) es man ∧
      (Run.EveryStep (CMasternodeMan.listStep env) (KeepsList env) es man ↔
        Run.EveryStep (CMasternodeMan.listStep env) (fun man e => e.Spares env man) es man) := by
  refine ⟨?_, ?_, ?_⟩
  · exact Run.along_of_everyStep id (fun hinv _ hs => nodup_outpoints_step hinv hs) es h
      (Run.everyStep_of_forall es fun _ _ _ => trivial)
  · exact Run.everyStep_of_everyStep (fun hinv => (keepsList_iff hinv).mp)
      (fun hinv _ hs => nodup_outpoints_step hinv hs) es h
  · exact Run.everyStep_of_everyStep (fun hinv => (keepsList_iff hinv).mpr)
      (fun hinv _ hs => nodup_outpoints_step hinv hs) es h

/-! ### Two masternodes -/

/-- A masternode whose collateral is the output `n` of one transaction, paid at the time `nLastPaid`. -/
def listedMasternode (n : Nat) (nLastPaid : Int) : MasternodeEntry :=
  { MasternodeEntry.new ⟨[10, 0, 0, 1], 9999⟩ ⟨⟨7, n⟩, [], uintMax⟩ [] [] 0 [] 61403 [] 0 nLastPaid with
    lastTimeSeen := 1000 }

def listCtx : MasternodeCtx where
  nAdjustedTime := 1060
  nTime := 1060
  acceptableInputs _ := true
  getInputAge _ := 20
  nBestHeight := some 500

def listEnv : MasternodeEnv where
  verifyMessage _ _ _ := true
  serviceToString _ := []
  getScriptForDestination _ := []
  nMasternodeMinProtocol := 61403
  recommend n := 2 * n

def twoMasternodes (capacity : Nat) (h : 2 ≤ capacity) : CMasternodeMan where
  vMasternodes := ⟨[listedMasternode 0 900, listedMasternode 1 800], capacity, h⟩

theorem masternodeList_integrity_room :
    Run.EveryStep (CMasternodeMan.listStep listEnv) (KeepsList listEnv)
      [⟨listCtx, .add (listedMasternode 2 0)⟩, ⟨listCtx, .checkAndRemove⟩] (twoMasternodes 4 (by decide)) := by
  refine (masternodeList_integrity_iff listEnv _ _ (by decide)).2.mpr ⟨?_, fun man' hs => ⟨?_, ?_⟩⟩
  · exact fun _ => .inl (by decide)
  · obtain rfl := Option.some.inj hs
    exact List.forall_mem_nil _
  · exact fun _ _ => trivial

/-- With no room left a third masternode changes the order of the two, and `Remove` of the second one does
not return. -/
theorem masternodeList_disturbed :
    (twoMasternodes 2 (by decide)).outpoints.Nodup ∧
      ¬KeepsList listEnv (twoMasternodes 2 (by decide)) ⟨listCtx, .add (listedMasternode 2 0)⟩ ∧
      ((findOldestNotInVec listCtx [(listedMasternode 2 0).vin] 0
          (twoMasternodes 2 (by decide)).vMasternodes.toList).1.map MasternodeEntry.vin,
        (findOldestNotInVec listCtx [(listedMasternode 2 0).vin] 0
          ((twoMasternodes 2 (by decide)).add listEnv listCtx
            (listedMasternode 2 0)).2.vMasternodes.toList).1.map MasternodeEntry.vin)
        = (some (listedMasternode 1 0).vin, some (listedMasternode 0 0).vin) ∧
      ¬KeepsList listEnv (twoMasternodes 2 (by decide)) ⟨listCtx, .remove (listedMasternode 1 0).vin⟩ ∧
      ∀ rounds, (twoMasternodes 2 (by decide)).removeLoop listCtx (listedMasternode 1 0).vin 0 rounds
        = none := by
  have hnodup : (twoMasternodes 2 (by decide)).outpoints.Nodup := by decide
  refine ⟨hnodup, fun h => ?_, by decide, fun h => ?_, ?_⟩
  · rcases (keepsList_iff hnodup).mp h (by decide) with hroom | hpaid
    · exact absurd hroom (by decide)
    · exact absurd (hpaid _ List.mem_cons_self) (by decide)
  · rcases (keepsList_iff hnodup).mp h with hnil | ⟨hhead, -⟩
    · cases hnil
    · exact absurd hhead (by decide)
  · exact removeLoop_eq_none rfl (by decide)

end Sphinx
