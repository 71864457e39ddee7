import Sphinx.Util.KeepBest
import Sphinx.SignedMessages

/-!
# Which spork a node ends with

A node keeps for each id the spork with the latest time (`lookup_foldl_receive`), and of sporks signed
at one time the one that comes first.  So two nodes that receive the same sporks end alike in all orders
exactly when no id has two latest sporks (`sporks_converge_iff`).
-/

namespace Sphinx

open KeepBest

variable {signer : StashedSendSigner} {getHash : CSporkMessage → Uint256} {sporks : Sporks}
  {spork : CSporkMessage}

theorem Sporks.lookup_setActive (id : Int) : (sporks.setActive getHash spork).mapSporksActive.lookup id =
    if spork.nSporkID = id then some spork else sporks.mapSporksActive.lookup id := by
  unfold setActive
  by_cases hid : spork.nSporkID = id
  · rw [if_pos hid, ← hid]
    exact AList.lookup_insert _
  · rw [if_neg hid]
    exact AList.lookup_insert_ne (Ne.symm hid)

theorem receive_of_invalid (h : spork.checkSignature signer = false) :
    sporks.receive signer getHash spork = sporks := by
  simp only [Sporks.receive, processSpork, h, dos]
  cases sporks.mapSporksActive.lookup spork.nSporkID with
  | none => rfl
  | some active => by_cases hle : spork.nTimeSigned ≤ active.nTimeSigned <;> simp [hle]

/-- A spork with a good signature is kept if it is later than the active one of its id. -/
theorem receive_of_valid (h : spork.checkSignature signer = true) (id : Int) :
    (sporks.receive signer getHash spork).mapSporksActive.lookup id =
      if spork.nSporkID = id then
        better CSporkMessage.nTimeSigned (sporks.mapSporksActive.lookup id) spork
      else sporks.mapSporksActive.lookup id := by
  by_cases hid : spork.nSporkID = id
  · subst hid
    rw [if_pos rfl]
    simp only [Sporks.receive, processSpork, h]
    cases hactive : sporks.mapSporksActive.lookup spork.nSporkID with
    | none => simp [better, Sporks.lookup_setActive]
    | some active =>
      rw [better_some]
      by_cases hle : spork.nTimeSigned ≤ active.nTimeSigned
      · rw [if_neg (not_lt.mpr hle)]
        simp [hle, hactive]
      · rw [if_pos (not_le.mp hle)]
        simp [hle, Sporks.lookup_setActive]
  · rw [if_neg hid]
    simp only [Sporks.receive, processSpork, h]
    cases sporks.mapSporksActive.lookup spork.nSporkID with
    | none => simp [Sporks.lookup_setActive, hid]
    | some active =>
      by_cases hle : spork.nTimeSigned ≤ active.nTimeSigned <;> simp [hle, Sporks.lookup_setActive, hid]

theorem foldl_receive_filter : ∀ (l : List CSporkMessage) (sporks : Sporks),
    l.foldl (Sporks.receive signer getHash) sporks =
      (l.filter fun spork => spork.checkSignature signer).foldl (Sporks.receive signer getHash) sporks := by
  intro l
  induction l with
  | nil => exact fun _ => rfl
  | cons spork l ih =>
    intro sporks
    cases h : spork.checkSignature signer with
    | false =>
      rw [List.filter_cons_of_neg (by rw [h]; exact Bool.false_ne_true), List.foldl_cons,
        receive_of_invalid h, ih]
    | true => rw [List.filter_cons_of_pos h, List.foldl_cons, List.foldl_cons, ih]

/-! ### Convergence -/

/-- The valid sporks that a node received are the ones in `msgs`, in any order, any number of times and
with any others in between. -/
def Received (signer : StashedSendSigner) (msgs l : List CSporkMessage) : Prop :=
  ∀ spork, spork ∈ l ∧ spork.checkSignature signer = true ↔ spork ∈ msgs

/-- A spork of an id that none in `msgs` is later than. -/
def Latest (msgs : List CSporkMessage) (id : Int) : CSporkMessage → Prop :=
  Best CSporkMessage.nTimeSigned fun spork => spork ∈ msgs ∧ spork.nSporkID = id

/-- `mapSporksActive` of a node that started empty. -/
def activeAfter (signer : StashedSendSigner) (getHash : CSporkMessage → Uint256) (l : List CSporkMessage)
    (id : Int) : Option CSporkMessage :=
  (l.foldl (Sporks.receive signer getHash) {}).mapSporksActive.lookup id

/-- Nodes that receive the valid sporks `msgs` end with the same active sporks, for each id a latest
one, and invalid sporks change nothing. -/
structure SporksConverge (signer : StashedSendSigner) (getHash : CSporkMessage → Uint256)
    (msgs : List CSporkMessage) : Prop where
  same : ∀ l l', Received signer msgs l → Received signer msgs l' →
    ∀ id, activeAfter signer getHash l id = activeAfter signer getHash l' id
  latest : ∀ l, Received signer msgs l →
    ∀ spork ∈ msgs, ∃ spork', activeAfter signer getHash l spork.nSporkID = some spork' ∧
      Latest msgs spork.nSporkID spork'
  invalid : ∀ (sporks : Sporks) (spork : CSporkMessage), spork.checkSignature signer = false →
    sporks.receive signer getHash spork = sporks

theorem lookup_foldl_receive (l : List CSporkMessage) (id : Int) :
    activeAfter signer getHash l id =
      ((l.filter fun spork => spork.checkSignature signer).filter fun spork =>
        spork.nSporkID = id).foldl (better CSporkMessage.nTimeSigned) none := by
  rw [activeAfter, foldl_receive_filter]
  have hput : ∀ spork ∈ l.filter fun spork => spork.checkSignature signer, ∀ sporks : Sporks,
      (sporks.receive signer getHash spork).mapSporksActive.lookup id =
        if spork.nSporkID = id then
          better CSporkMessage.nTimeSigned (sporks.mapSporksActive.lookup id) spork
        else sporks.mapSporksActive.lookup id :=
    fun spork hspork sporks => receive_of_valid (List.mem_filter.mp hspork).2 id
  exact get_foldl (fun (sporks : Sporks) id => sporks.mapSporksActive.lookup id) id _ hput {}

variable {msgs l l' : List CSporkMessage}

theorem Received.mem_filter (h : Received signer msgs l) (id : Int) (spork : CSporkMessage) :
    (spork ∈ (l.filter fun spork => spork.checkSignature signer).filter fun spork =>
        spork.nSporkID = id) ↔ spork ∈ msgs ∧ spork.nSporkID = id := by
  rw [List.mem_filter, List.mem_filter, h spork, decide_eq_true_iff]

theorem received_self (hvalid : ∀ spork ∈ msgs, spork.checkSignature signer = true) :
    Received signer msgs msgs :=
  fun spork => ⟨fun h => h.1, fun h => ⟨h, hvalid spork h⟩⟩

theorem Received.cons (h : Received signer msgs l) (hspork : spork ∈ msgs) :
    Received signer msgs (spork :: l) := by
  intro spork'
  rw [← h spork', List.mem_cons]
  constructor
  · rintro ⟨rfl | hl, hv⟩
    · exact (h spork').mpr hspork
    · exact ⟨hl, hv⟩
  · exact fun ⟨hl, hv⟩ => ⟨.inr hl, hv⟩

/-- If one spork of an id is the latest, the order of the sporks does not matter for this id. -/
theorem activeAfter_eq (hunique : ∀ id m m', Latest msgs id m → Latest msgs id m' → m = m')
    (hl : Received signer msgs l) (hl' : Received signer msgs l') (id : Int) :
    activeAfter signer getHash l id = activeAfter signer getHash l' id := by
  have heq := KeptBest.map_eq (f := fun spork => spork) (hunique id)
    (keptBest_foldl_none (hl.mem_filter id)) (keptBest_foldl_none (hl'.mem_filter id))
  rwa [Option.map_id', Option.map_id', ← lookup_foldl_receive, ← lookup_foldl_receive] at heq

theorem activeAfter_cons_latest {id : Int} {m : CSporkMessage}
    (hvalid : ∀ spork ∈ msgs, spork.checkSignature signer = true) (hm : Latest msgs id m) :
    activeAfter signer getHash (m :: msgs) id = some m := by
  rw [lookup_foldl_receive, List.filter_cons_of_pos (hvalid m hm.1.1),
    List.filter_cons_of_pos (by simpa using hm.1.2)]
  exact foldl_cons_best ((received_self hvalid).mem_filter id) hm

/-- **Convergence of the sporks.**  All orders of the sporks `msgs`, with whatever else arrives, lead to
the same active sporks exactly when no id has two latest sporks in `msgs`. -/
theorem sporks_converge_iff (hvalid : ∀ spork ∈ msgs, spork.checkSignature signer = true) :
    SporksConverge signer getHash msgs ↔
      ∀ id m m', Latest msgs id m → Latest msgs id m' → m = m' := by
  constructor
  · intro h id m m' hm hm'
    have hself := received_self hvalid
    have heq := h.same _ _ (hself.cons hm.1.1) (hself.cons hm'.1.1) id
    rw [activeAfter_cons_latest hvalid hm, activeAfter_cons_latest hvalid hm'] at heq
    exact Option.some.inj heq
  · intro hunique
    refine ⟨fun l l' hl hl' => activeAfter_eq hunique hl hl', fun l hl spork hspork => ?_,
      fun sporks spork => receive_of_invalid⟩
    rw [lookup_foldl_receive]
    exact (keptBest_foldl_none (hl.mem_filter _)).exists ⟨hspork, rfl⟩

/-! ### Two sporks of one second -/

def StashedSendSigner.lax : StashedSendSigner where
  signMessage := fun _ => some []
  verifyOwn := fun _ _ => true
  verifyMain := fun _ _ => true

def instantXOff : CSporkMessage := { nSporkID := 10001, nValue := 4070908800, nTimeSigned := 1500000000 }

def instantXOn : CSporkMessage := { nSporkID := 10001, nValue := 978307200, nTimeSigned := 1500000000 }

def instantXLater : CSporkMessage := { instantXOn with nTimeSigned := 1500000001 }

def hashTime (spork : CSporkMessage) : Uint256 := spork.nTimeSigned.toNat

theorem sporks_converge_later : SporksConverge .lax hashTime [instantXOff, instantXLater] := by
  refine (sporks_converge_iff fun _ _ => rfl).mpr fun id m m' hm hm' => ?_
  have hlater : ∀ {spork}, Latest [instantXOff, instantXLater] id spork → spork = instantXLater := by
    intro spork hspork
    obtain ⟨⟨hmem, hid⟩, hmax⟩ := hspork
    rcases List.mem_pair.mp hmem with rfl | rfl
    · exact absurd (hmax instantXLater ⟨by decide, hid⟩) (by decide)
    · rfl
  rw [hlater hm, hlater hm']

/-- Two nodes that received the same two sporks stay apart. -/
theorem sporks_diverge : ¬SporksConverge .lax hashTime [instantXOff, instantXOn] := by
  intro h
  have hreceived : Received .lax [instantXOff, instantXOn] [instantXOn, instantXOff] := by
    intro spork
    simp only [List.mem_cons, List.not_mem_nil, or_false]
    exact ⟨fun h => h.1.symm, fun h => ⟨h.symm, rfl⟩⟩
  have hsame := h.same _ _ (received_self fun _ _ => rfl) hreceived 10001
  exact absurd hsame (by decide)

end Sphinx
