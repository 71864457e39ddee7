import Sphinx.Alert
import Sphinx.Util.Loop
import Sphinx.Util.Run

/-!
# The final alert

A new alert first cancels stored alerts and is then tested against those that are left, so an alert
that cancels `maxInt` removes the final alert before this one can reject it.

* `processAlert_of_handled`, `processAlert_of_not_handled`: when the alerts are touched at all;
* `finalAlert_stays_iff`: the final alert stays, alone, exactly when no other final alert is there already
  and none of the alerts that follow overrides it.
-/

namespace Sphinx

open Run

namespace CAlert

variable {env : AlertEnv} {nTime : Int} {m : StdMap Uint256 CAlert}

/-! ### The two loops -/

theorem lookup_cancelPrevious (this : CAlert) {h : Uint256} {a : CAlert} :
    (this.cancelPrevious nTime m).lookup h = some a ↔ m.lookup h = some a ∧ this.erases nTime a = false := by
  rw [cancelPrevious, MapLoop.lookup_foldl_erase]
  have hkeys : h ∈ (m.entries.filter fun e => this.erases nTime e.2).map Sigma.fst ↔
      ∃ a', m.lookup h = some a' ∧ this.erases nTime a' = true := by
    constructor
    · intro hmem
      obtain ⟨⟨h', a'⟩, he, rfl⟩ := List.mem_map.mp hmem
      rw [List.mem_filter] at he
      exact ⟨a', AList.mem_lookup_iff.mpr he.1, he.2⟩
    · rintro ⟨a', hl, he⟩
      exact List.mem_map.mpr ⟨⟨h, a'⟩, List.mem_filter.mpr ⟨AList.mem_lookup_iff.mp hl, he⟩, rfl⟩
  by_cases hmem : h ∈ (m.entries.filter fun e => this.erases nTime e.2).map Sigma.fst
  · rw [if_pos hmem]
    obtain ⟨a', hl, he⟩ := hkeys.mp hmem
    constructor
    · intro hc
      cases hc
    · rintro ⟨hl', he'⟩
      rw [hl, Option.some.injEq] at hl'
      rw [hl', he'] at he
      cases he
  · rw [if_neg hmem]
    constructor
    · intro hl
      refine ⟨hl, ?_⟩
      by_contra he
      exact hmem (hkeys.mpr ⟨a, hl, by simpa using he⟩)
    · exact fun hl => hl.1

/-- The second loop finds no alert that cancels this one. -/
def Passes (nTime : Int) (this : CAlert) (m : StdMap Uint256 CAlert) : Prop :=
  ∀ h a, m.lookup h = some a → this.erases nTime a = false → a.cancels nTime this = false

theorem any_cancels_eq_false (this : CAlert) :
    ((this.cancelPrevious nTime m).entries.any fun item => item.2.cancels nTime this) = false ↔
      this.Passes nTime m := by
  rw [List.any_eq_false]
  constructor
  · intro h k a hl he
    have hmem := AList.mem_lookup_iff.mp (this.lookup_cancelPrevious.mpr ⟨hl, he⟩)
    simpa using h _ hmem
  · rintro h ⟨k, a⟩ hmem
    obtain ⟨hl, he⟩ := this.lookup_cancelPrevious.mp (AList.mem_lookup_iff.mpr hmem)
    simpa using h k a hl he

theorem storeAlert_of_passes {this : CAlert} (h : this.Passes nTime m) :
    this.storeAlert env nTime m = (true, this.insertAlert env (this.cancelPrevious nTime m)) := by
  rw [storeAlert, this.any_cancels_eq_false.mpr h]
  rfl

theorem storeAlert_of_not_passes {this : CAlert} (h : ¬ this.Passes nTime m) :
    this.storeAlert env nTime m = (false, this.cancelPrevious nTime m) := by
  rw [storeAlert, Bool.eq_true_of_not_eq_false fun hc => h (this.any_cancels_eq_false.mp hc)]
  rfl

theorem lookup_insertAlert (this : CAlert) {h : Uint256} {a : CAlert} :
    (this.insertAlert env m).lookup h = some a ↔
      m.lookup h = some a ∨ h = this.getHash env ∧ a = this ∧ m.lookup h = none := by
  unfold insertAlert
  split
  · next hs =>
    constructor
    · exact .inl
    · rintro (hl | ⟨rfl, -, hn⟩)
      · exact hl
      · rw [hn] at hs
        cases hs
  · next hs =>
    rw [Option.not_isSome_iff_eq_none] at hs
    by_cases hh : h = this.getHash env
    · subst hh
      rw [AList.lookup_insert, hs]
      constructor
      · intro ha
        exact .inr ⟨rfl, (Option.some.inj ha).symm, rfl⟩
      · rintro (hc | ⟨-, rfl, -⟩)
        · cases hc
        · rfl
    · rw [AList.lookup_insert_ne hh]
      constructor
      · exact .inl
      · rintro (hl | ⟨hc, -⟩)
        · exact hl
        · exact absurd hc hh

end CAlert

variable {env : AlertEnv} {m m' : StdMap Uint256 CAlert} {e : AlertMessage} {F G : CAlert}

/-! ### One alert -/

/-- The alert is signed, in effect and, if it is a final one, has the required fields. -/
structure HandledAlert (env : AlertEnv) (e : AlertMessage) (G : CAlert) : Prop where
  received : CAlert.checkSignature env e.vchMsg e.vchSig = some G
  inEffect : G.isInEffect e.nTime = true
  fields : G.nID = maxInt → G.finalFieldsOk = true

theorem processAlert_of_handled (h : HandledAlert env e G) :
    processAlert env m e = G.storeAlert env e.nTime m := by
  have hfields : (decide (G.nID = maxInt) && !G.finalFieldsOk) = false := by
    by_cases hID : G.nID = maxInt
    · rw [h.fields hID, Bool.not_true, Bool.and_false]
    · rw [decide_eq_false hID, Bool.false_and]
  simp only [processAlert, h.received, h.inEffect, hfields, Bool.not_true, Bool.false_eq_true, if_false]

/-- An alert that is not handled leaves the map alone. -/
theorem processAlert_of_not_handled (h : ∀ G, ¬ HandledAlert env e G) : processAlert env m e = (false, m) := by
  unfold processAlert
  split
  · rfl
  · next G hG =>
    split_ifs with heffect hfields
    · rfl
    · rfl
    · refine absurd ⟨hG, by simpa using heffect, fun hID => ?_⟩ (h G)
      simpa [hID] using hfields

theorem checkSignature_eq_some (h : CAlert.checkSignature env e.vchMsg e.vchSig = some G) :
    G.vchMsg = e.vchMsg ∧ env.unserialize G.vchMsg = some G.toCUnsignedAlert := by
  unfold CAlert.checkSignature at h
  split_ifs at h with hverify
  obtain ⟨alert, halert, rfl⟩ := Option.map_eq_some_iff.mp h
  exact ⟨rfl, halert⟩

theorem HandledAlert.nID_le (h : HandledAlert env e G) : G.nID ≤ maxInt :=
  env.nID_le (checkSignature_eq_some h.received).2

/-- What is known of a stored alert. -/
structure StoredAlert (env : AlertEnv) (a : CAlert) : Prop where
  unserialized : env.unserialize a.vchMsg = some a.toCUnsignedAlert
  fields : a.nID = maxInt → a.finalFieldsOk = true

/-- Every stored alert is one that has been read and checked, under its hash. -/
structure AlertsStored (env : AlertEnv) (m : StdMap Uint256 CAlert) : Prop where
  checked : ∀ h a, m.lookup h = some a → StoredAlert env a
  keyed : ∀ h a, m.lookup h = some a → a.getHash env = h

theorem HandledAlert.stored (h : HandledAlert env e G) : StoredAlert env G :=
  ⟨(checkSignature_eq_some h.received).2, h.fields⟩

theorem alertsStored_step (hm : AlertsStored env m) : AlertsStored env (processAlert env m e).2 := by
  by_cases hh : ∃ G, HandledAlert env e G
  · obtain ⟨G, hG⟩ := hh
    have hcancel : AlertsStored env (G.cancelPrevious e.nTime m) :=
      ⟨fun h a hl => hm.checked h a (G.lookup_cancelPrevious.mp hl).1,
        fun h a hl => hm.keyed h a (G.lookup_cancelPrevious.mp hl).1⟩
    rw [processAlert_of_handled hG]
    by_cases hp : G.Passes e.nTime m
    · rw [CAlert.storeAlert_of_passes hp]
      constructor
      · intro h a hl
        rcases G.lookup_insertAlert.mp hl with hl | ⟨-, rfl, -⟩
        · exact hcancel.checked h a hl
        · exact hG.stored
      · intro h a hl
        rcases G.lookup_insertAlert.mp hl with hl | ⟨rfl, rfl, -⟩
        · exact hcancel.keyed h a hl
        · rfl
    · rw [CAlert.storeAlert_of_not_passes hp]
      exact hcancel
  · rw [processAlert_of_not_handled fun G hG => hh ⟨G, hG⟩]
    exact hm

/-! ### The final alert -/

/-- The alert `F` has arrived with `nID == maxInt` and passed the checks. -/
structure FinalAlert (env : AlertEnv) (F : CAlert) : Prop extends StoredAlert env F where
  nID_eq : F.nID = maxInt

theorem FinalAlert.fields_eq (hF : FinalAlert env F) : F.nExpiration = maxInt ∧ F.nCancel = maxInt - 1 := by
  have h := hF.fields hF.nID_eq
  simp only [CAlert.finalFieldsOk, Bool.and_eq_true, decide_eq_true_eq] at h
  obtain ⟨⟨⟨⟨⟨⟨h1, h2⟩, -⟩, -⟩, -⟩, -⟩, -⟩ := h
  exact ⟨h1, h2⟩

theorem FinalAlert.isInEffect (hF : FinalAlert env F) (e : AlertMessage) : F.isInEffect e.nTime = true := by
  rw [CAlert.isInEffect, hF.fields_eq.1]
  exact decide_eq_true e.nTime_lt

theorem FinalAlert.cancels_iff (hF : FinalAlert env F) (e : AlertMessage) (hG : G.nID ≤ maxInt) :
    F.cancels e.nTime G = true ↔ G.nID ≠ maxInt ∨ maxInt ∈ F.setCancel := by
  rw [CAlert.cancels, hF.isInEffect e, hF.fields_eq.2]
  simp only [Bool.not_true, Bool.false_eq_true, if_false, Bool.or_eq_true, decide_eq_true_eq]
  constructor
  · rintro (hle | hmem)
    · exact .inl (by omega)
    · by_cases hID : G.nID = maxInt
      · exact .inr (hID ▸ hmem)
      · exact .inl hID
  · rintro (hne | hmem)
    · exact .inl (by omega)
    · by_cases hID : G.nID = maxInt
      · exact .inr (hID ▸ hmem)
      · exact .inl (by omega)

theorem FinalAlert.eq_fields (hF : FinalAlert env F) {a : CAlert} (ha : StoredAlert env a)
    (hmsg : a.vchMsg = F.vchMsg) : a.toCUnsignedAlert = F.toCUnsignedAlert := by
  have h := ha.unserialized
  rw [hmsg, hF.unserialized] at h
  exact (Option.some.inj h).symm

theorem FinalAlert.of_vchMsg (hF : FinalAlert env F) {a : CAlert} (ha : StoredAlert env a)
    (hmsg : a.vchMsg = F.vchMsg) : FinalAlert env a :=
  ⟨ha, (congrArg CUnsignedAlert.nID (hF.eq_fields ha hmsg)).trans hF.nID_eq⟩

/-- The final alert is stored, and no other alert is. -/
structure OnlyAlert (env : AlertEnv) (F : CAlert) (m : StdMap Uint256 CAlert) : Prop where
  stays : ∃ a, m.lookup (F.getHash env) = some a ∧ a.vchMsg = F.vchMsg
  alone : ∀ h a, m.lookup h = some a → a.vchMsg = F.vchMsg

/-- The alert `e` makes the final alert `F` go, or is stored beside it: it is another alert, it is handled,
and either it cancels `maxInt` or it is a second final alert that `F` does not cancel. -/
def Overrides (env : AlertEnv) (F : CAlert) (e : AlertMessage) : Prop :=
  ∃ G, HandledAlert env e G ∧ G.vchMsg ≠ F.vchMsg ∧
    (maxInt ≤ G.nCancel ∨ maxInt ∈ G.setCancel ∨
      G.nID = maxInt ∧ maxInt ∉ F.setCancel ∧ G.getHash env ≠ F.getHash env)

/-- Which alerts cancel the final one. -/
theorem FinalAlert.erases_iff (hF : FinalAlert env F) (hG : HandledAlert env e G) :
    G.erases e.nTime F = true ↔ maxInt ≤ G.nCancel ∨ maxInt ∈ G.setCancel := by
  rw [CAlert.erases, hF.isInEffect e, CAlert.cancels, hG.inEffect, hF.nID_eq]
  simp

/-- One alert that does not override the final one. -/
theorem onlyAlert_step (hF : FinalAlert env F) (hm : AlertsStored env m) (h : OnlyAlert env F m)
    (hsafe : ¬ Overrides env F e) : OnlyAlert env F (processAlert env m e).2 := by
  by_cases hh : ∃ G, HandledAlert env e G
  · obtain ⟨G, hG⟩ := hh
    obtain ⟨a, ha, hmsg⟩ := h.stays
    have hafinal := hF.of_vchMsg (hm.checked _ _ ha) hmsg
    have haset : a.setCancel = F.setCancel := congrArg CUnsignedAlert.setCancel (hF.eq_fields (hm.checked _ _ ha) hmsg)
    rw [processAlert_of_handled hG]
    have halone : ∀ h' a', (G.cancelPrevious e.nTime m).lookup h' = some a' → a'.vchMsg = F.vchMsg :=
      fun h' a' hl => h.alone h' a' (G.lookup_cancelPrevious.mp hl).1
    by_cases heq : G.vchMsg = F.vchMsg
    · -- the final alert again: what is inserted has its bytes
      have hhash : G.getHash env = F.getHash env := congrArg env.hash heq
      by_cases hp : G.Passes e.nTime m
      · rw [CAlert.storeAlert_of_passes hp]
        constructor
        · cases hl : (G.cancelPrevious e.nTime m).lookup (F.getHash env) with
          | some a' => exact ⟨a', G.lookup_insertAlert.mpr (.inl hl), halone _ _ hl⟩
          | none => exact ⟨G, G.lookup_insertAlert.mpr (.inr ⟨hhash.symm, rfl, hl⟩), heq⟩
        · intro h' a' hl
          rcases G.lookup_insertAlert.mp hl with hl | ⟨-, rfl, -⟩
          · exact halone h' a' hl
          · exact heq
      · rw [CAlert.storeAlert_of_not_passes hp]
        refine ⟨⟨a, G.lookup_cancelPrevious.mpr ⟨ha, ?_⟩, hmsg⟩, halone⟩
        by_contra he
        -- it erases itself, so no alert is left that could reject it
        refine hp fun h' a' hl he' => absurd ?_ (Bool.eq_false_iff.mp he')
        have hcong := (hF.of_vchMsg (hm.checked _ _ hl) (h.alone _ _ hl)).erases_iff hG
        exact hcong.mpr ((hafinal.erases_iff hG).mp (by simpa using he))
    · -- another alert leaves the final alert, and is rejected or has its key
      have hkeep : ¬ (maxInt ≤ G.nCancel ∨ maxInt ∈ G.setCancel) := fun hc =>
        hsafe ⟨G, hG, heq, by rcases hc with hc | hc <;> simp [hc]⟩
      have hnot : G.erases e.nTime a = false := by
        by_contra he
        exact hkeep ((hafinal.erases_iff hG).mp (by simpa using he))
      have hl := G.lookup_cancelPrevious.mpr ⟨ha, hnot⟩
      by_cases hp : G.Passes e.nTime m
      · rw [CAlert.storeAlert_of_passes hp]
        have hc := hp _ _ ha hnot
        have hcancel := hafinal.cancels_iff e hG.nID_le
        rw [hc, haset] at hcancel
        have hID : G.nID = maxInt := by
          by_contra hne
          exact absurd (hcancel.mpr (.inl hne)) Bool.false_ne_true
        have hset : maxInt ∉ F.setCancel := fun hmem => absurd (hcancel.mpr (.inr hmem)) Bool.false_ne_true
        have hhash : G.getHash env = F.getHash env := by
          by_contra hne
          exact hsafe ⟨G, hG, heq, .inr (.inr ⟨hID, hset, hne⟩)⟩
        refine ⟨⟨a, G.lookup_insertAlert.mpr (.inl hl), hmsg⟩, fun h' a' hl' => ?_⟩
        rcases G.lookup_insertAlert.mp hl' with hl' | ⟨rfl, -, hnone⟩
        · exact halone h' a' hl'
        · rw [hhash, hl] at hnone
          cases hnone
      · rw [CAlert.storeAlert_of_not_passes hp]
        exact ⟨⟨a, hl, hmsg⟩, halone⟩
  · rw [processAlert_of_not_handled fun G hG => hh ⟨G, hG⟩]
    exact h

theorem not_onlyAlert_step (hF : FinalAlert env F) (hm : AlertsStored env m) (h : OnlyAlert env F m)
    (hover : Overrides env F e) : ¬ OnlyAlert env F (processAlert env m e).2 := by
  obtain ⟨G, hG, hne, hcase⟩ := hover
  rw [processAlert_of_handled hG]
  by_cases he : maxInt ≤ G.nCancel ∨ maxInt ∈ G.setCancel
  · -- nothing is left to reject the alert
    have hall : ∀ h' a', m.lookup h' = some a' → G.erases e.nTime a' = true := fun h' a' hl =>
      ((hF.of_vchMsg (hm.checked _ _ hl) (h.alone _ _ hl)).erases_iff hG).mpr he
    have hp : G.Passes e.nTime m := fun h' a' hl he' => by
      rw [hall h' a' hl] at he'
      cases he'
    rw [CAlert.storeAlert_of_passes hp]
    intro hc
    obtain ⟨a, ha, hmsg⟩ := hc.stays
    rcases G.lookup_insertAlert.mp ha with ha | ⟨-, rfl, -⟩
    · obtain ⟨hl, he'⟩ := G.lookup_cancelPrevious.mp ha
      rw [hall _ _ hl] at he'
      cases he'
    · exact hne hmsg
  · obtain ⟨hID, hset, hhash⟩ : G.nID = maxInt ∧ maxInt ∉ F.setCancel ∧ G.getHash env ≠ F.getHash env := by
      rcases hcase with hc | hc | hc
      · exact absurd (.inl hc) he
      · exact absurd (.inr hc) he
      · exact hc
    have hp : G.Passes e.nTime m := by
      intro h' a' hl _
      have ha := hm.checked _ _ hl
      have hmsg := h.alone _ _ hl
      by_contra hc
      have hcancel := ((hF.of_vchMsg ha hmsg).cancels_iff e hG.nID_le).mp (by simpa using hc)
      rw [congrArg CUnsignedAlert.setCancel (hF.eq_fields ha hmsg)] at hcancel
      rcases hcancel with hc | hc
      · exact hc hID
      · exact hset hc
    rw [CAlert.storeAlert_of_passes hp]
    intro hc
    -- it is stored under its own key, next to the final alert or in its place
    cases hl : (G.cancelPrevious e.nTime m).lookup (G.getHash env) with
    | none => exact hne (hc.alone _ _ (G.lookup_insertAlert.mpr (.inr ⟨rfl, rfl, hl⟩)))
    | some a =>
      have hla := (G.lookup_cancelPrevious.mp hl).1
      exact hhash ((hm.keyed _ _ hla).symm.trans (congrArg env.hash (h.alone _ _ hla)))

/-! ### Runs -/

/-- A run of `ProcessAlert`. -/
def alertStep (env : AlertEnv) (m : StdMap Uint256 CAlert) (e : AlertMessage) : Option (StdMap Uint256 CAlert) :=
  some (processAlert env m e).2

/-- What is stored has passed the checks. -/
theorem alertsStored_run {es : List AlertMessage} (hrun : es.foldlM (alertStep env) ∅ = some m) :
    AlertsStored env m := by
  refine inv_of_foldlM es (fun _ hm hstep => ?_) ⟨fun h a hl => ?_, fun h a hl => ?_⟩ hrun
  · rw [← Option.some.inj hstep]
    exact alertsStored_step hm
  · rw [AList.lookup_empty] at hl
    cases hl
  · rw [AList.lookup_empty] at hl
    cases hl

/-- When a final alert is accepted, it is alone unless another final alert is there that it does not cancel. -/
theorem onlyAlert_accepted (hF : HandledAlert env e F) (hID : F.nID = maxInt) (hm : AlertsStored env m)
    (hp : F.Passes e.nTime m) :
    OnlyAlert env F (processAlert env m e).2 ↔
      ∀ h a, m.lookup h = some a → a.nID = maxInt → a.vchMsg ≠ F.vchMsg → maxInt ∈ F.setCancel := by
  have hfinal : FinalAlert env F := ⟨hF.stored, hID⟩
  rw [processAlert_of_handled hF, CAlert.storeAlert_of_passes hp]
  have herases : ∀ h a, m.lookup h = some a →
      (F.erases e.nTime a = true ↔ a.nID ≠ maxInt ∨ maxInt ∈ F.setCancel) := by
    intro h a hl
    have ha := hm.checked h a hl
    have hcancel := hfinal.cancels_iff e (env.nID_le ha.unserialized)
    rw [CAlert.erases, Bool.or_eq_true, hcancel]
    refine ⟨fun hc => ?_, .inl⟩
    rcases hc with hc | hc
    · exact hc
    · by_contra hnot
      push Not at hnot
      rw [FinalAlert.isInEffect ⟨ha, hnot.1⟩ e] at hc
      cases hc
  constructor
  · intro honly h a hl haID hne
    by_contra hset
    have hkept : F.erases e.nTime a = false := by
      by_contra hc
      rcases (herases h a hl).mp (by simpa using hc) with hc | hc
      · exact hc haID
      · exact hset hc
    exact hne (honly.alone h a (F.lookup_insertAlert.mpr (.inl (F.lookup_cancelPrevious.mpr ⟨hl, hkept⟩))))
  · intro hall
    have halone : ∀ h a, (F.cancelPrevious e.nTime m).lookup h = some a → a.vchMsg = F.vchMsg := by
      intro h a hl
      obtain ⟨hl, hkept⟩ := F.lookup_cancelPrevious.mp hl
      by_contra hne
      refine absurd ((herases h a hl).mpr ?_) (Bool.eq_false_iff.mp hkept)
      by_cases haID : a.nID = maxInt
      · exact .inr (hall h a hl haID hne)
      · exact .inl haID
    constructor
    · cases hl : (F.cancelPrevious e.nTime m).lookup (F.getHash env) with
      | some a => exact ⟨a, F.lookup_insertAlert.mpr (.inl hl), halone _ _ hl⟩
      | none => exact ⟨F, F.lookup_insertAlert.mpr (.inr ⟨rfl, rfl, hl⟩), rfl⟩
    · intro h a hl
      rcases F.lookup_insertAlert.mp hl with hl | ⟨-, rfl, -⟩
      · exact halone h a hl
      · rfl

/-- **The final alert.**  Once it has been accepted, it stays and no other alert is stored, exactly when no
other final alert was stored before that it does not cancel, and no alert that follows overrides it. -/
theorem finalAlert_stays_iff {es₀ : List AlertMessage} (hrun : es₀.foldlM (alertStep env) ∅ = some m)
    (hF : CAlert.checkSignature env e.vchMsg e.vchSig = some F) (hID : F.nID = maxInt)
    (hfields : F.finalFieldsOk = true) (haccepted : (processAlert env m e).1 = true)
    (es : List AlertMessage) :
    Along (alertStep env) (OnlyAlert env F) es (processAlert env m e).2 ↔
      (∀ h a, m.lookup h = some a → a.nID = maxInt → a.vchMsg ≠ F.vchMsg → maxInt ∈ F.setCancel) ∧
        ∀ e' ∈ es, ¬ Overrides env F e' := by
  have hfinal : FinalAlert env F := ⟨⟨(checkSignature_eq_some hF).2, fun _ => hfields⟩, hID⟩
  have hhandled : HandledAlert env e F := ⟨hF, hfinal.isInEffect e, fun _ => hfields⟩
  have hm := alertsStored_run hrun
  have hp : F.Passes e.nTime m := by
    by_contra hc
    rw [processAlert_of_handled hhandled, CAlert.storeAlert_of_not_passes hc] at haccepted
    cases haccepted
  have hrunIff : OnlyAlert env F (processAlert env m e).2 →
      (Along (alertStep env) (OnlyAlert env F) es (processAlert env m e).2 ↔
        ∀ e' ∈ es, ¬ Overrides env F e') := by
    intro honly
    rw [← everyStep_iff_forall (f := fun m e => (processAlert env m e).2) es]
    refine @along_iff_everyStep _ _ _ _ (fun m => AlertsStored env m ∧ OnlyAlert env F m) _ (fun h => h.2)
      (fun hinv hsafe hstep => ?_) (fun hinv hover => ⟨_, rfl, ?_⟩) es _ ⟨alertsStored_step hm, honly⟩
    · rw [← Option.some.inj hstep]
      exact ⟨alertsStored_step hinv.1, onlyAlert_step hfinal hinv.1 hinv.2 hsafe⟩
    · exact not_onlyAlert_step hfinal hinv.1 hinv.2 (not_not.mp hover)
  rw [← onlyAlert_accepted hhandled hID hm hp]
  constructor
  · intro halong
    exact ⟨halong.head, (hrunIff halong.head).mp halong⟩
  · rintro ⟨honly, hall⟩
    exact (hrunIff honly).mpr hall

/-! ### An alert that overrides the final one -/

def urgentAlert : CUnsignedAlert where
  nExpiration := maxInt
  nID := maxInt
  nCancel := maxInt - 1
  nMaxVer := maxInt
  nPriority := maxInt
  strStatusBar := "URGENT: Alert key compromised, upgrade required"

def calmAlert : CUnsignedAlert where
  nExpiration := 100
  nID := 7
  setCancel := {maxInt}
  strStatusBar := "everything is OK"

/-- Every signature is right; the two alerts are the messages `[1]` and `[2, 2]`. -/
def alertEnv : AlertEnv where
  hash vchMsg := vchMsg.length
  verify _ _ := true
  unserialize vchMsg := if vchMsg = [1] then some urgentAlert
    else if vchMsg = [2, 2] then some calmAlert else none
  nID_le := by
    intro vchMsg alert h
    split_ifs at h with h1 h2
    · obtain rfl := Option.some.inj h
      exact le_rfl
    · obtain rfl := Option.some.inj h
      decide

def urgentMessage : AlertMessage := ⟨[1], [], 10, by decide⟩

def calmMessage : AlertMessage := ⟨[2, 2], [], 20, by decide⟩

def urgentStored : CAlert := { urgentAlert with vchMsg := [1], vchSig := [] }

theorem finalAlert_stays_alone :
    Along (alertStep alertEnv) (OnlyAlert alertEnv urgentStored) [urgentMessage]
      (processAlert alertEnv ∅ urgentMessage).2 := by
  refine (@finalAlert_stays_iff alertEnv ∅ urgentMessage urgentStored [] rfl rfl rfl (by decide)
    (by decide) _).mpr ⟨?_, ?_⟩
  · intro h a hl
    rw [AList.lookup_empty] at hl
    cases hl
  · rintro e' he' ⟨G, hG, hne, -⟩
    rw [List.mem_singleton.mp he'] at hG
    exact hne (checkSignature_eq_some hG.received).1

theorem finalAlert_overridden :
    CAlert.checkSignature alertEnv urgentMessage.vchMsg urgentMessage.vchSig = some urgentStored ∧
      urgentStored.nID = maxInt ∧ urgentStored.finalFieldsOk = true ∧
      (processAlert alertEnv ∅ urgentMessage).1 = true ∧
      (processAlert alertEnv (processAlert alertEnv ∅ urgentMessage).2 calmMessage).1 = true ∧
      (processAlert alertEnv (processAlert alertEnv ∅ urgentMessage).2 calmMessage).2.lookup
        (urgentStored.getHash alertEnv) = none ∧
      ¬ Along (alertStep alertEnv) (OnlyAlert alertEnv urgentStored) [calmMessage]
        (processAlert alertEnv ∅ urgentMessage).2 := by
  have hgone : (processAlert alertEnv (processAlert alertEnv ∅ urgentMessage).2 calmMessage).2.lookup
      (urgentStored.getHash alertEnv) = none := by decide
  refine ⟨rfl, rfl, by decide, by decide, by decide, hgone, fun halong => ?_⟩
  obtain ⟨a, ha, -⟩ := (halong.2 _ rfl).stays
  rw [hgone] at ha
  cases ha

end Sphinx
